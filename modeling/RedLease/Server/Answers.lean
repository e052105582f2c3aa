import RedLease.Server.Codec
import RedLease.Server.Locks

/-!
# What a worker answers

Facts about the steps of a server that its connections and its clients rely on, beside the entries:
a response carries the request ID and the operation of its request, an operation keeps the time that
`apply` read for it, and a new lease ID appears in a shard only where `addLease` puts it.

* **`step_answers`**: the response that a worker has always answers its operation.
* **`step_job`**: from `apply` to the response an operation keeps its reading of the clock.
* **`inserted_of_step`**: a step that stores a lease ID which was not stored is an insertion.
-/

namespace RedLease.Server

open Lib LeaseShard

variable {n m : Nat} {cfg : Config} {assign : Nat → Fin n}

/-! ## Responses answer their operation -/

/-- The code of an operation in requests and responses. -/
def OperationKind.code : OperationKind → ClientOperation
  | .acquire => ClientOperation.acquire
  | .renew => ClientOperation.renew
  | .release => ClientOperation.release

/-- The response has the request ID and the code of the operation, and one of the statuses of a
lease operation. -/
structure Answers (op : Operation) (r : Response) : Prop where
  requestID : r.requestID = op.requestID
  operation : r.operation = OperationKind.code op.kind
  status : r.status ≤ LeaseStatus.keyLimitReached

theorem Answers.encodable {op : Operation} {r : Response} (h : Answers op r) : Encodable r := by
  obtain ⟨-, hop, hstatus⟩ := h
  rw [encodable_iff, hop]
  refine ⟨hstatus, ?_⟩
  cases op.kind with
  | acquire | renew | release => decide

theorem answers_acquireResponse {op : Operation} (hkind : op.kind = .acquire) {status : LeaseStatus}
    (ttlMS : Nat) (h : status ≤ LeaseStatus.keyLimitReached) :
    Answers op (acquireResponse op.requestID status ttlMS) :=
  ⟨rfl, by rw [hkind]; rfl, h⟩

theorem answers_renewResponse {op : Operation} (hkind : op.kind = .renew) {status : LeaseStatus}
    (ttlMS : Nat) (h : status ≤ LeaseStatus.keyLimitReached) :
    Answers op (renewResponse op.requestID status ttlMS) :=
  ⟨rfl, by rw [hkind]; rfl, h⟩

theorem answers_releaseResponse {op : Operation} (hkind : op.kind = .release) {status : LeaseStatus}
    (h : status ≤ LeaseStatus.keyLimitReached) :
    Answers op (releaseResponse op.requestID status) :=
  ⟨rfl, by rw [hkind]; rfl, h⟩

theorem answers_statusResponse (op : Operation) {status : LeaseStatus}
    (h : status ≤ LeaseStatus.keyLimitReached) : Answers op (statusResponse op status) := by
  cases hk : op.kind with
  | acquire =>
    simp only [statusResponse, hk]
    exact answers_acquireResponse hk 0 h
  | renew =>
    simp only [statusResponse, hk]
    exact answers_renewResponse hk 0 h
  | release =>
    simp only [statusResponse, hk]
    exact answers_releaseResponse hk h

/-- Every response of a locked section answers the operation. -/
theorem lockedSection_answers {maxTTL : Nat} {shard : LeaseShard} {op : Operation} {now : Time}
    {r : Response} (h : (lockedSection maxTTL shard op now).reply = some r) : Answers op r := by
  unfold lockedSection at h
  cases hk : op.kind with
  | acquire =>
    rw [hk] at h
    rcases acquireHead_cases shard maxTTL op now with
      ⟨d, -, -, heq⟩ | ⟨id, d, -, -, -, heq⟩ | ⟨id, d, p, -, -, -, heq⟩ | ⟨-, heq⟩
    all_goals simp only [heq] at h; cases h
    · exact answers_acquireResponse hk _ (by decide)
    · exact answers_acquireResponse hk _ (by decide)
  | renew =>
    rw [hk] at h
    rcases renewBody_cases shard maxTTL op now with
      ⟨-, heq⟩ | ⟨id, d, p, -, -, -, heq⟩ | ⟨id, d, -, -, -, heq⟩ |
      ⟨d, p, -, -, -, -, heq⟩ | ⟨d, -, -, -, heq⟩
    all_goals
      simp only [heq] at h
      cases h
      exact answers_renewResponse hk _ (by decide)
  | release =>
    rw [hk] at h
    rcases releaseBody_cases shard op now with
      ⟨-, heq⟩ | ⟨id, d, p, -, -, -, heq⟩ | ⟨id, d, -, -, -, heq⟩
    all_goals
      simp only [heq] at h
      cases h
      exact answers_releaseResponse hk (by decide)

/-- The response a worker has, if any, answers its operation. -/
def Worker.Answers : Worker → Prop
  | .releaseLoad job response => ∀ r, response = some r → Server.Answers job.op r
  | .releaseSwap job response _ => ∀ r, response = some r → Server.Answers job.op r
  | .reply job r => Server.Answers job.op r
  | _ => True

/-- What follows a section hands over its response, or goes on with an Acquire. -/
theorem proceed_answers {sh sh' : Shared n} {i : Fin n} {job : Job} {response : Option Response}
    {w : Worker} (hr : ∀ r, response = some r → Answers job.op r)
    (hkind : response = none → job.op.kind = .acquire)
    (h : proceed cfg sh i job response = (sh', w)) : w.Answers := by
  cases response with
  | some r =>
    cases h
    exact hr r rfl
  | none =>
    unfold proceed at h
    dsimp only at h
    split_ifs at h with h0
    · cases h
      exact answers_acquireResponse (hkind rfl) _ (by decide)
    · cases h
      trivial

theorem Worker.step_answers {sh sh' : Shared n} {i : Fin n} {w w' : Worker} {pool : PoolGet}
    (hwf : ∀ i, (sh.shards i).WF) (hw : w.Inv cfg sh.clock (sh.shards i)) (ha : w.Answers)
    (h : w.step cfg sh i pool = some (sh', w')) : w'.Answers := by
  have hk := hw.knows
  cases w with
  | idle | dequeued op | admitted op | reply job response => cases h
  | lock job =>
    simp only [Worker.step] at h
    split_ifs at h with hmu h0
    · exact proceed_answers (fun r hr => lockedSection_answers hr)
        (fun hr => (lockedSection_none (hwf i) hr).1) (Option.some.inj h)
    · cases h
      exact fun r hr => lockedSection_answers hr
  | releaseLoad job response =>
    simp only [Worker.step] at h
    split at h
    · cases h
      exact ha
    · exact proceed_answers ha (fun hr => (hk hr).1) (Option.some.inj h)
  | releaseSwap job response current =>
    simp only [Worker.step] at h
    split at h
    · exact proceed_answers ha (fun hr => (hk.1 hr).1) (Option.some.inj h)
    · cases h
      exact ha
  | reserveLoad job =>
    simp only [Worker.step] at h
    split_ifs at h with hfull hatt
    · cases h
      exact answers_acquireResponse hk.1 _ (by decide)
    · cases h
      trivial
    · cases h
      trivial
  | reserveSwap job current =>
    simp only [Worker.step] at h
    split_ifs at h
    all_goals cases h; trivial
  | insert job =>
    simp only [Worker.step] at h
    cases h
    exact answers_acquireResponse hk.1 _ (by decide)
  | cleanup job pass =>
    simp only [Worker.step] at h
    split at h
    · cases h; trivial
    · cases h; trivial
    · cases h

section Step

variable {s s' : State n m} {a : Act n m}

/-- **The response that a worker has answers its operation.** -/
theorem step_answers (hi : Inv cfg assign s) (h : ∀ i, (s.workers i).Answers)
    (hs : step cfg assign s a = some s') : ∀ i, (s'.workers i).Answers := by
  intro i
  cases step_worker hs i with
  | still hw ha => rw [hw]; exact h i
  | moved pool ha hm => exact Worker.step_answers hi.wf (hi.workers i) (h i) hm
  | dequeued op hw hw' | dropped op hw hw' | admitted op hw hw' | applied op now hw hn hw'
  | responded job r hw hw' => rw [hw']; trivial

/-! ## Operations keep their time -/

/-- Inside `apply` a worker keeps its operation and the time it read. -/
theorem WorkerTurn.job {sh sh' : Shared n} {i : Fin n} {w w' : Worker}
    (h : WorkerTurn cfg sh sh' i w w') :
    ∃ job job', w.job = some job ∧ w'.job = some job' ∧ job'.op = job.op ∧ job'.now = job.now := by
  cases h with
  | sectioned job _ _ _ _ _ _ hw' =>
    rcases hw' with ⟨-, hjob, -⟩ | ⟨r, rfl⟩
    · exact ⟨job, job, rfl, hjob, rfl, rfl⟩
    · exact ⟨job, job, rfl, rfl, rfl, rfl⟩
  | held _ _ job _ _ hjob hjob' => exact ⟨job, job, hjob, hjob', rfl, rfl⟩
  | freed _ _ job _ hjob hw' =>
    refine ⟨job, job, hjob, ?_, rfl, rfl⟩
    rcases hw' with ⟨r, rfl⟩ | rfl
    · rfl
    · rfl
  | inserted job | passed job => exact ⟨job, job, rfl, rfl, rfl, rfl⟩
  | cleaned job => exact ⟨job, _, rfl, rfl, rfl, rfl⟩

/-- **An operation keeps the time that `apply` read**: a worker at work on one was so before, or has
read the clock in this step. -/
theorem step_job (hs : step cfg assign s a = some s') {i : Fin n} {job : Job}
    (hj : (s'.workers i).job = some job) :
    (∃ job₀, (s.workers i).job = some job₀ ∧ job₀.op = job.op ∧ job₀.now = job.now) ∨
      a = .apply i job.now ∧ s.workers i = .admitted job.op := by
  cases step_worker hs i with
  | still hw ha =>
    rw [hw] at hj
    exact Or.inl ⟨job, hj, rfl, rfl⟩
  | moved pool ha hm =>
    obtain ⟨job₀, job', h0, h1, hop, hnow⟩ := (Worker.step_turn hm).job
    rw [hj] at h1
    cases h1
    exact Or.inl ⟨job₀, h0, hop.symm, hnow.symm⟩
  | dequeued op hw hw' | dropped op hw hw' | admitted op hw hw' | responded job r hw hw' =>
    rw [hw'] at hj; cases hj
  | applied op now hw hn hw' ha =>
    rw [hw'] at hj
    cases hj
    exact Or.inr ⟨ha, hw⟩

/-- A worker has taken its operation from the queue, in this step or before. -/
theorem step_operation (hi : Inv cfg assign s) (hs : step cfg assign s a = some s') {i : Fin n}
    {op : Operation} (hop : (s'.workers i).operation = some op) :
    (s.workers i).operation = some op ∨ a = .dequeue i op := by
  cases step_worker hs i with
  | still hw ha =>
    rw [hw] at hop
    exact Or.inl hop
  | moved pool ha hm =>
    obtain ⟨-, -, heq⟩ := Worker.step_effects hi.wf (hi.workers i) (hi.worker_debt_le i) hm
    rw [heq] at hop
    exact Or.inl hop
  | dequeued op' hw hw' ha =>
    rw [hw'] at hop
    cases hop
    exact Or.inr ha
  | dropped op' hw hw' => rw [hw'] at hop; cases hop
  | admitted op' hw hw' | applied op' now hw hn hw' =>
    rw [hw'] at hop
    rw [hw]
    exact Or.inl hop
  | responded job r hw hw' => rw [hw'] at hop; cases hop

/-! ## Phases -/

/-- Only the end of the quarantine and `Close` change the phase, and only time changes the clock. -/
theorem step_frame (hi : Inv cfg assign s) (hs : step cfg assign s a = some s') :
    (a ≠ .activate → a ≠ .close → s'.phase = s.phase) ∧
      ((∀ now, a ≠ .tick now) → s'.clock = s.clock) := by
  cases a with
  | tick now =>
    simp only [step] at hs
    split_ifs at hs
    cases hs
    exact ⟨fun _ _ => rfl, fun h => absurd rfl (h now)⟩
  | dequeue i op =>
    simp only [step] at hs
    split at hs
    · split_ifs at hs
      cases hs
      exact ⟨fun _ _ => rfl, fun _ => rfl⟩
    · cases hs
  | check i =>
    simp only [step] at hs
    split at hs
    · cases hs
      exact ⟨fun _ _ => rfl, fun _ => rfl⟩
    · cases hs
  | apply i now =>
    simp only [step] at hs
    split at hs
    · split_ifs at hs
      cases hs
      exact ⟨fun _ _ => rfl, fun _ => rfl⟩
    · cases hs
  | work i pool =>
    simp only [step] at hs
    split at hs
    · rename_i sh w hw
      cases hs
      have he := (Worker.step_effects hi.wf (hi.workers i) (hi.worker_debt_le i) hw).1
      exact ⟨fun _ _ => he.phase, fun _ => he.clock⟩
    · cases hs
  | respond i | sweep j =>
    simp only [step] at hs
    split at hs
    · cases hs
      exact ⟨fun _ _ => rfl, fun _ => rfl⟩
    · cases hs
  | start j now =>
    simp only [step] at hs
    split at hs
    · split_ifs at hs
      cases hs
      exact ⟨fun _ _ => rfl, fun _ => rfl⟩
    · cases hs
  | pass j =>
    simp only [step] at hs
    split at hs
    · rename_i p hw
      have hd := hi.cleaner_debt_le j
      rw [hw] at hd
      split at hs
      · rename_i sh p' hp
        cases hs
        have he := (Pass.step_effects cfg (fun _ => none) hi.wf (hi.cleaners j p hw) hd hp).1
        exact ⟨fun _ _ => he.phase, fun _ => he.clock⟩
      · rename_i sh hp
        cases hs
        have he := (Pass.step_effects cfg (fun _ => none) hi.wf (hi.cleaners j p hw) hd hp).1
        exact ⟨fun _ _ => he.phase, fun _ => he.clock⟩
      · cases hs
    · cases hs
  | activate =>
    simp only [step] at hs
    split_ifs at hs
    cases hs
    exact ⟨fun h => absurd rfl h, fun _ => rfl⟩
  | close =>
    simp only [step] at hs
    cases hs
    exact ⟨fun _ h => absurd rfl h, fun _ => rfl⟩

theorem acting_job {w : Worker} {job : Job} (h : w.acting = some job) : w.job = some job := by
  cases w with
  | lock job' => exact h
  | insert job' => exact h
  | _ => cases h

/-- The job that acts on a shard is one of a worker. -/
theorem worker_acting {i : Fin n} {job : Job} (h : s.acting a i = some job) :
    (s.workers i).acting = some job := by
  cases a with
  | work j pool =>
    simp only [State.acting, onShard] at h
    split_ifs at h with hij
    subst hij
    exact h
  | _ => cases h

/-- A server that admits operations stores no deadline later than `MaxTTL` from now. -/
theorem step_deadline (hi : Inv cfg assign s) (hs : step cfg assign s a = some s') {i : Fin n}
    {k : Nat} {id : LeaseID} {d bound : Time} (hbound : cfg.maxTTL * millisecond ≤ bound)
    (h : ∀ id d, (s.shards i).view k = some (id, d) → d ≤ s.clock + bound)
    (hv : (s'.shards i).view k = some (id, d)) : d ≤ s'.clock + bound := by
  obtain ⟨-, hclock, hentries⟩ := step_sound hi hs
  have he := hentries i k
  rw [hv] at he
  rcases he.origin with hsame | ⟨job, hj, -, -, rfl⟩
  · exact (h id d hsame).trans (Nat.add_le_add_right hclock bound)
  · have hnow := (hi.workers i).now job (acting_job (worker_acting hj))
    have httl := Nat.mul_le_mul_right millisecond (effectiveTTLMS_le cfg.maxTTL job.op)
    exact Nat.add_le_add (le_trans hnow hclock) (httl.trans hbound)

/-- Nothing has been admitted since the server started. -/
structure Resting (s : State n m) : Prop where
  workers : ∀ i, s.workers i = .idle ∨ ∃ op, s.workers i = .dequeued op
  entries : ∀ i k, (s.shards i).view k = none

theorem resting_init (clock : Time) : Resting (State.init n m clock) where
  workers _ := Or.inl rfl
  entries _ _ := view_empty _

/-- A server that is not active admits nothing. -/
theorem step_resting (hi : Inv cfg assign s) (hphase : s.phase ≠ .active) (h : Resting s)
    (hs : step cfg assign s a = some s') : Resting s' where
  workers i := by
    cases step_worker hs i with
    | still hw ha => rw [hw]; exact h.workers i
    | moved pool ha hm =>
      rcases h.workers i with hw | ⟨op, hw⟩
      · rw [hw] at hm; cases hm
      · rw [hw] at hm; cases hm
    | dequeued op hw hw' => exact Or.inr ⟨op, hw'⟩
    | dropped op hw hw' => exact Or.inl hw'
    | admitted op hw hw' hactive => exact absurd hactive hphase
    | applied op now hw hn hw' =>
      rcases h.workers i with hidle | ⟨op, hdeq⟩
      · rw [hidle] at hw; cases hw
      · rw [hdeq] at hw; cases hw
    | responded job r hw hw' => exact Or.inl hw'
  entries i k := by
    have hnone : s.acting a i = none := by
      cases a with
      | work j pool =>
        show onShard j (s.workers j).acting i = none
        rcases h.workers j with hw | ⟨op, hw⟩
        all_goals
          rw [hw, onShard]
          split_ifs <;> rfl
      | _ => rfl
    have he := (step_sound hi hs).2.2 i k
    rw [hnone] at he
    exact he.none_of_none (h.entries i k)

/-! ## Insertions -/

/-- What follows a section leaves the shards alone. -/
theorem proceed_shards (cfg : Config) (sh : Shared n) (i : Fin n) (job : Job)
    (response : Option Response) : (proceed cfg sh i job response).1.shards = sh.shards := by
  cases response with
  | some r => rfl
  | none =>
    unfold proceed
    dsimp only
    split_ifs <;> rfl

/-- The shard after the locked section of its worker. -/
theorem lock_shard {i : Fin n} {job : Job} {pool : PoolGet} (hw : s.workers i = .lock job)
    (hs : step cfg assign s (.work i pool) = some s') :
    s'.shards i = (lockedSection cfg.maxTTL (s.shards i) job.op job.now).shard := by
  simp only [step, hw, Worker.step] at hs
  split_ifs at hs
  · cases hs
    show (proceed _ _ _ _ _).1.shards i = _
    rw [proceed_shards]
    exact Function.update_self _ _ _
  · cases hs
    exact Function.update_self _ _ _

/-- A locked section stores no key that was not stored. -/
theorem Effect.stored {maxTTL removed : Nat} {v v' : Nat → Option (LeaseID × Time)}
    {op : Operation} {now : Time} (e : Effect maxTTL v v' op now removed) {k : Nat}
    {x : LeaseID × Time} (h : v' k = some x) : ∃ y, v k = some y := by
  by_cases hk : k = op.key
  · subst hk
    cases e with
    | same hv => exact ⟨x, hv ▸ h⟩
    | removed id d hkey hwhy hv | extended d hkind hkey hlive hd hv => exact ⟨_, hkey⟩
  · exact ⟨x, e.other hk ▸ h⟩

/-- **A lease ID that a step brings into a shard is inserted by `addLease`.** -/
theorem inserted_of_step (hi : Inv cfg assign s) (hs : step cfg assign s a = some s') {i : Fin n}
    {k : Nat} {id : LeaseID} {d : Time} (hv : (s'.shards i).view k = some (id, d)) :
    (∃ d₀, (s.shards i).view k = some (id, d₀)) ∨
      ∃ pool job, a = .work i pool ∧ s.workers i = .insert job ∧ job.op.key = k ∧
        job.op.leaseID = id := by
  have he := (step_sound hi hs).2.2 i k
  generalize hv₀ : (s.shards i).view k = e at he
  rw [hv] at he
  cases he with
  | same => exact Or.inl ⟨d, rfl⟩
  | renewed j d₀ hj hkind hkey hlive hd => exact Or.inl ⟨d₀, rfl⟩
  | acquired j hj hkind hkey =>
    right
    cases a with
    | work i' pool =>
      by_cases hii : i = i'
      · subst hii
        have hact : (s.workers i).acting = some j := by
          simpa only [State.acting, onShard, if_true] using hj
        cases hw : s.workers i with
        | insert job =>
          rw [hw] at hact
          cases hact
          exact ⟨pool, j, rfl, rfl, hkey, rfl⟩
        | lock job =>
          -- a locked section stores no key that was not stored
          have hstored : ∃ e, (s.shards i).view k = some e := by
            rw [(lock_shard hw hs : s'.shards i = _)] at hv
            exact (lockedSection_spec cfg.maxTTL job.op job.now (hi.wf i)).2.2.stored hv
          obtain ⟨e, he⟩ := hstored
          rw [hv₀] at he
          cases he
        | _ => rw [hw] at hact; cases hact
      · simp only [State.acting, onShard, if_neg hii] at hj
        cases hj
    | _ => cases hj

end Step

end RedLease.Server
