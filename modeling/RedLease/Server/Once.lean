import RedLease.Server.Answers

/-!
# What a worker has still to do, and what it has done

An Acquire that a worker has not answered may still insert its lease; the insertion answers it. A
Renew is answered with OK by its section, which found the entry of the lease with a deadline after
its reading of the clock.

* **`mayInsert_of_step`**: a worker gets an Acquire that may insert only from its queue.
* **`renewed_of_step`**: the step that answers a Renew with OK finds the entry unexpired.
-/

namespace RedLease

/-- The operation is an Acquire of the lease. -/
def Operation.acquires (id : LeaseID) (op : Operation) : Bool :=
  op.leaseID = id ∧ op.kind = .acquire

theorem Operation.acquires_iff {id : LeaseID} {op : Operation} :
    op.acquires id = true ↔ op.leaseID = id ∧ op.kind = .acquire := decide_eq_true_iff

namespace Server

open Lib LeaseShard

variable {n m : Nat} {cfg : Config} {assign : Nat → Fin n} {s s' : State n m} {a : Act n m}
  {i : Fin n} {id : LeaseID}

/-! ## Acquire -/

/-- The worker has an Acquire of the lease, and has not answered it. -/
def Worker.mayInsert (id : LeaseID) : Worker → Bool
  | .reply _ _ => false
  | w => w.operation.any (Operation.acquires id)

theorem mayInsert_iff {w : Worker} : w.mayInsert id = true ↔
    (∀ job r, w ≠ .reply job r) ∧ ∃ op, w.operation = some op ∧ op.acquires id = true := by
  have hany : ∀ {w : Worker}, w.operation.any (Operation.acquires id) = true ↔
      ∃ op, w.operation = some op ∧ op.acquires id = true := fun {w} => by
    rw [Option.any_eq_true]
  cases w with
  | reply job r => exact ⟨nofun, fun h => absurd rfl (h.1 job r)⟩
  | _ => exact ⟨fun h => ⟨nofun, hany.mp h⟩, fun h => hany.mpr h.2⟩

/-- **A worker gets an Acquire from its queue.** -/
theorem mayInsert_of_step (hi : Inv cfg assign s) (hs : step cfg assign s a = some s')
    (h : (s'.workers i).mayInsert id = true) : (s.workers i).mayInsert id = true ∨
      ∃ op, a = .dequeue i op ∧ op.acquires id = true ∧ s.workers i = .idle := by
  obtain ⟨hreply, op, hop, hacquires⟩ := mayInsert_iff.mp h
  rcases step_operation hi hs hop with hold | rfl
  · refine Or.inl (mayInsert_iff.mpr ⟨fun job r hw => ?_, op, hold, hacquires⟩)
    cases step_worker hs i with
    | still hsame ha => exact hreply job r (hsame.trans hw)
    | moved pool ha hm =>
      rw [hw] at hm
      cases hm
    | dequeued op' hidle hw' ha => rw [hw] at hidle; cases hidle
    | dropped op' hd hw' | admitted op' hd hw' hactive | applied op' now hd hn hw' ha =>
      rw [hw] at hd; cases hd
    | responded job' r' hd hw' =>
      rw [hw'] at hop
      cases hop
  · refine Or.inr ⟨op, rfl, hacquires, ?_⟩
    simp only [step] at hs
    split at hs
    · assumption
    · cases hs

theorem mayInsert_of_insert (hi : Inv cfg assign s) {job : Job} (hw : s.workers i = .insert job)
    (hid : job.op.leaseID = id) : (s.workers i).mayInsert id = true := by
  have hfresh := (hi.workers i).knows
  rw [hw] at hfresh ⊢
  exact mayInsert_iff.mpr ⟨nofun, job.op, rfl, Operation.acquires_iff.mpr ⟨hid, hfresh.1⟩⟩

/-- The insertion answers the Acquire. -/
theorem not_mayInsert_of_insert {job : Job} {pool : PoolGet} (hw : s.workers i = .insert job)
    (hs : step cfg assign s (.work i pool) = some s') : (s'.workers i).mayInsert id = false := by
  simp only [step, hw, Worker.step] at hs
  cases hs
  show Worker.mayInsert id (Function.update s.workers i _ i) = false
  rw [Function.update_self]
  rfl

theorem mayInsert_of_acting {w : Worker} {job : Job} (h : w.acting = some job)
    (hid : job.op.leaseID = id) (hkind : job.op.kind = .acquire) : w.mayInsert id = true := by
  have hacquires := Operation.acquires_iff.mpr ⟨hid, hkind⟩
  cases w with
  | lock job₀ | insert job₀ =>
    cases h
    exact mayInsert_iff.mpr ⟨nofun, job.op, rfl, hacquires⟩
  | _ => cases h

/-! ## Renew -/

/-- The response that a worker has for its job. -/
def Worker.answer : Worker → Option (Job × Response)
  | .reply job r => some (job, r)
  | .releaseLoad job response | .releaseSwap job response _ => response.map (job, ·)
  | _ => none

theorem Worker.Answers.answer {w : Worker} (h : w.Answers) {job : Job} {r : Response}
    (ha : w.answer = some (job, r)) : Server.Answers job.op r := by
  cases w with
  | reply job₀ r₀ =>
    cases ha
    exact h
  | releaseLoad job₀ response | releaseSwap job₀ response current =>
    obtain ⟨r₀, hr, heq⟩ := Option.map_eq_some_iff.mp ha
    cases heq
    exact h r hr
  | _ => cases ha

/-- The response to a Renew that has extended the lease. -/
def Renewed (r : Response) : Prop :=
  r.operation = ClientOperation.renew ∧ r.status = LeaseStatus.ok

instance (r : Response) : Decidable (Renewed r) := inferInstanceAs (Decidable (_ ∧ _))

/-- A section that answers a Renew with OK has found the lease, unexpired. -/
theorem lockedSection_renewed {maxTTL : Nat} {shard : LeaseShard} {op : Operation} {now : Time}
    {r : Response} (h : (lockedSection maxTTL shard op now).reply = some r) (hr : Renewed r) :
    op.kind = .renew ∧ ∃ d, shard.view op.key = some (op.leaseID, d) ∧ now < d := by
  have hop := (lockedSection_answers h).operation
  rw [hr.1] at hop
  cases hk : op.kind with
  | acquire | release => rw [hk] at hop; cases hop
  | renew =>
    refine ⟨rfl, ?_⟩
    unfold lockedSection at h
    rw [hk] at h
    have hstale : ∀ {r : Response}, renewResponse op.requestID LeaseStatus.stale 0 = r →
        ¬ Renewed r := by
      rintro r rfl ⟨-, hst⟩
      cases hst
    rcases renewBody_cases shard maxTTL op now with
      ⟨-, heq⟩ | ⟨id, d, p, -, -, -, heq⟩ | ⟨id, d, -, -, -, heq⟩ |
      ⟨d, p, hv, hlive, -, -, -⟩ | ⟨d, hv, hlive, -, -⟩
    · simp only [heq] at h
      exact absurd hr (hstale (Option.some.inj h))
    · simp only [heq] at h
      exact absurd hr (hstale (Option.some.inj h))
    · simp only [heq] at h
      exact absurd hr (hstale (Option.some.inj h))
    · exact ⟨d, hv, hlive⟩
    · exact ⟨d, hv, hlive⟩

theorem not_renewed_acquireResponse {requestID : Nat} {status : UInt8} {ttlMS : Nat} :
    ¬ Renewed (acquireResponse requestID status ttlMS) := fun h => by cases h.1

/-- After a section a Renew has the answer of the section. -/
theorem proceed_renewed {sh sh' : Shared n} {job job' : Job} {response : Option Response}
    {r : Response} {w : Worker} (hp : proceed cfg sh i job response = (sh', w))
    (h : w.answer = some (job', r)) (hr : Renewed r) : job' = job ∧ response = some r := by
  cases response with
  | some r₀ =>
    cases hp
    cases h
    exact ⟨rfl, rfl⟩
  | none =>
    simp only [proceed] at hp
    split_ifs at hp
    · cases hp
      cases h
      exact absurd hr not_renewed_acquireResponse
    · cases hp
      cases h

theorem Worker.renewed_of_step {sh sh' : Shared n} {w w' : Worker} {pool : PoolGet} {job : Job}
    {r : Response} (hs : w.step cfg sh i pool = some (sh', w')) (h : w'.answer = some (job, r))
    (hr : Renewed r) : w.answer = some (job, r) ∨ w = .lock job ∧ job.op.kind = .renew ∧
      ∃ d, (sh.shards i).view job.op.key = some (job.op.leaseID, d) ∧ job.now < d := by
  cases w with
  | idle | dequeued op | admitted op | reply job₀ response => cases hs
  | lock job₀ =>
    refine Or.inr ?_
    simp only [Worker.step] at hs
    split_ifs at hs with hmu h0
    · obtain ⟨rfl, hreply⟩ := proceed_renewed (Option.some.inj hs) h hr
      exact ⟨rfl, lockedSection_renewed hreply hr⟩
    · cases hs
      obtain ⟨r₀, hreply, heq⟩ := Option.map_eq_some_iff.mp h
      cases heq
      exact ⟨rfl, lockedSection_renewed hreply hr⟩
  | releaseLoad job₀ response =>
    refine Or.inl ?_
    simp only [Worker.step] at hs
    split at hs
    · cases hs
      exact h
    · obtain ⟨rfl, rfl⟩ := proceed_renewed (Option.some.inj hs) h hr
      rfl
  | releaseSwap job₀ response current =>
    refine Or.inl ?_
    simp only [Worker.step] at hs
    split at hs
    · obtain ⟨rfl, rfl⟩ := proceed_renewed (Option.some.inj hs) h hr
      rfl
    · cases hs
      exact h
  | reserveLoad job₀ =>
    simp only [Worker.step] at hs
    split_ifs at hs
    · cases hs
      cases h
      exact absurd hr not_renewed_acquireResponse
    · cases hs
      cases h
    · cases hs
      cases h
  | reserveSwap job₀ current =>
    simp only [Worker.step] at hs
    split_ifs at hs
    all_goals cases hs; cases h
  | insert job₀ =>
    simp only [Worker.step] at hs
    cases hs
    cases h
    exact absurd hr not_renewed_acquireResponse
  | cleanup job₀ pass =>
    simp only [Worker.step] at hs
    split at hs
    · cases hs; cases h
    · cases hs; cases h
    · cases hs

/-- **The step that answers a Renew with OK is its section**, and finds the lease unexpired. -/
theorem renewed_of_step (hs : step cfg assign s a = some s') {job : Job} {r : Response}
    (h : (s'.workers i).answer = some (job, r)) (hr : Renewed r) :
    (s.workers i).answer = some (job, r) ∨ s.workers i = .lock job ∧ job.op.kind = .renew ∧
      ∃ d, (s.shards i).view job.op.key = some (job.op.leaseID, d) ∧ job.now < d := by
  cases step_worker hs i with
  | still hw ha =>
    rw [hw] at h
    exact Or.inl h
  | moved pool ha hm => exact Worker.renewed_of_step hm h hr
  | dequeued op hw hw' ha | dropped op hw hw' | admitted op hw hw' hactive
  | applied op now hw hn hw' ha | responded job' r' hw hw' => rw [hw'] at h; cases h

/-! ## Before the section -/

/-- The job of a worker that has read the clock and not yet done its section. -/
def Worker.entering : Worker → Option Job
  | .lock job | .cleanup job _ => some job
  | _ => none

theorem entering_of_acting {clock : Time} {shard : LeaseShard} {w : Worker} {job : Job}
    (hw : w.Inv cfg clock shard) (h : w.acting = some job) (hkind : job.op.kind = .renew) :
    w.entering = some job := by
  cases w with
  | lock job₀ => exact h
  | insert job₀ =>
    cases h
    cases hw.knows.1.symm.trans hkind
  | _ => cases h

theorem proceed_entering {sh sh' : Shared n} {job : Job} {response : Option Response} {w : Worker}
    (h : proceed cfg sh i job response = (sh', w)) : w.entering = none := by
  cases response with
  | some r => cases h; rfl
  | none =>
    simp only [proceed] at h
    split_ifs at h
    all_goals cases h; rfl

/-- Only an Acquire comes back to its section. -/
theorem Worker.entering_of_step {sh sh' : Shared n} {w w' : Worker} {pool : PoolGet} {job : Job}
    (hw : w.Inv cfg sh.clock (sh.shards i)) (hs : w.step cfg sh i pool = some (sh', w'))
    (h : w'.entering = some job) (hkind : job.op.kind ≠ .acquire) :
    ∃ job₀, w.entering = some job₀ ∧ job₀.op = job.op ∧ job₀.now = job.now := by
  have hknows := hw.knows
  cases w with
  | idle | dequeued op | admitted op | reply job₀ response => cases hs
  | lock job₀ =>
    simp only [Worker.step] at hs
    split_ifs at hs
    · rw [proceed_entering (Option.some.inj hs)] at h
      cases h
    · cases hs; cases h
  | releaseLoad job₀ response =>
    simp only [Worker.step] at hs
    split at hs
    · cases hs; cases h
    · rw [proceed_entering (Option.some.inj hs)] at h
      cases h
  | releaseSwap job₀ response current =>
    simp only [Worker.step] at hs
    split at hs
    · rw [proceed_entering (Option.some.inj hs)] at h
      cases h
    · cases hs; cases h
  | reserveLoad job₀ =>
    simp only [Worker.step] at hs
    split_ifs at hs
    · cases hs; cases h
    · cases hs
      cases h
      exact absurd hknows.1 hkind
    · cases hs; cases h
  | reserveSwap job₀ current =>
    simp only [Worker.step] at hs
    split_ifs at hs
    all_goals cases hs; cases h
  | insert job₀ =>
    simp only [Worker.step] at hs
    cases hs
    cases h
  | cleanup job₀ pass =>
    simp only [Worker.step] at hs
    split at hs
    · cases hs
      exact ⟨job, h, rfl, rfl⟩
    · cases hs
      cases h
      exact ⟨job₀, rfl, rfl, rfl⟩
    · cases hs

/-- **Who is before its section** was there already, or reads the clock in this step. -/
theorem entering_of_step (hi : Inv cfg assign s) (hs : step cfg assign s a = some s') {job : Job}
    (h : (s'.workers i).entering = some job) (hkind : job.op.kind ≠ .acquire) :
    (∃ job₀, (s.workers i).entering = some job₀ ∧ job₀.op = job.op ∧ job₀.now = job.now) ∨
      a = .apply i job.now := by
  cases step_worker hs i with
  | still hw ha =>
    rw [hw] at h
    exact Or.inl ⟨job, h, rfl, rfl⟩
  | moved pool ha hm => exact Or.inl (Worker.entering_of_step (hi.workers i) hm h hkind)
  | dequeued op hw hw' ha | dropped op hw hw' | admitted op hw hw' hactive => rw [hw'] at h; cases h
  | applied op now hw hn hw' ha =>
    rw [hw'] at h
    cases h
    exact Or.inr ha
  | responded job' r' hw hw' => rw [hw'] at h; cases h

end Server

end RedLease
