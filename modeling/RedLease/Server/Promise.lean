import RedLease.Server.Capacity

/-!
# What a granted lease can rely on

An Acquire or Renew that answers `OK` or `ALREADY_OWNED` with a positive TTL promises that the key
stays with this lease ID until `now + ttl`. Entries are deleted or replaced on many paths: lazily by
each of the three operations, by two kinds of cleanup with clock readings of their own, by Release,
and by the second attempt of an Acquire, which still uses its old `now`. `step_sound` reduces all of
them to `EntryStep`, and an entry that is live at the clock survives each of its cases but one.

* `Backed`: the entry that stands behind a promise.
* **`Backed.step`**: every step but its own Release keeps it.
* **`step_honest`**: a granting response is backed from the moment the worker has it.
* **`promise_kept`**: the promise over whole runs.
-/

namespace RedLease.Server

open Lib LeaseShard

variable {n m : Nat} {cfg : Config} {assign : Nat → Fin n} {s s' : State n m} {k : Nat}
  {id : LeaseID}

/-! ## Steps of an entry -/

section Entry

variable {maxTTL : Nat} {clock d : Time} {job : Option Job} {e e' : Option (LeaseID × Time)}

/-- A live entry survives every step but its own Release. -/
theorem EntryStep.kept (h : EntryStep maxTTL clock job k (some (id, d)) e') (hd : clock < d)
    (hrel : ∀ j, job = some j → ¬ (j.op.kind = .release ∧ j.op.key = k ∧ j.op.leaseID = id)) :
    ∃ d', e' = some (id, d') ∧ d ≤ d' := by
  cases h with
  | same => exact ⟨d, rfl, le_refl d⟩
  | expired _ _ hexp => exact absurd hd (not_lt.mpr hexp)
  | released j _ hj hkind hkey => exact absurd ⟨hkind, hkey, rfl⟩ (hrel j hj)
  | renewed j _ hj hkind hkey hlive hlt => exact ⟨_, rfl, le_of_lt hlt⟩

/-- A live entry is not touched by a step for another lease ID. -/
theorem EntryStep.foreign (h : EntryStep maxTTL clock job k (some (id, d)) e') (hd : clock < d)
    (hj : ∀ j, job = some j → j.op.leaseID ≠ id) : e' = some (id, d) := by
  cases h with
  | same => rfl
  | expired _ _ hexp => exact absurd hd (not_lt.mpr hexp)
  | released j _ hjob | renewed j _ hjob => exact absurd rfl (hj j hjob)

/-- An entry is as it was before, or an operation with its key and lease ID set its deadline. -/
theorem EntryStep.origin (h : EntryStep maxTTL clock job k e (some (id, d))) :
    e = some (id, d) ∨ ∃ j, job = some j ∧ j.op.key = k ∧ j.op.leaseID = id ∧
      d = j.now + effectiveTTLMS maxTTL j.op * millisecond := by
  cases h with
  | same => exact Or.inl rfl
  | renewed j d₀ hj hkind hkey | acquired j hj hkind hkey => exact Or.inr ⟨j, hj, hkey, rfl, rfl⟩

end Entry

/-! ## The promise -/

/-- The stored entry of a key. -/
def State.stored (assign : Nat → Fin n) (s : State n m) (k : Nat) : Option (LeaseID × Time) :=
  (s.shards (assign k)).view k

/-- In this step a Release of key `k` with lease ID `id` is applied. -/
def Releases (k : Nat) (id : LeaseID) (s : State n m) (a : Act n m) : Prop :=
  ∃ i job, s.acting a i = some job ∧ job.op.kind = .release ∧ job.op.key = k ∧ job.op.leaseID = id

/-- Up to the time `u`, key `k` is stored with lease ID `id` and a deadline no earlier than `u`. -/
def Backed (clock : Time) (shard : LeaseShard) (k : Nat) (id : LeaseID) (u : Time) : Prop :=
  clock < u → ∃ d, shard.view k = some (id, d) ∧ u ≤ d

/-- **One step keeps the promise**, unless it releases the lease. -/
theorem Backed.step {a : Act n m} {u : Time} {i : Fin n} (hi : Inv cfg assign s)
    (h : Backed s.clock (s.shards i) k id u) (hs : step cfg assign s a = some s')
    (hrel : ∀ job, s.acting a i = some job →
      ¬ (job.op.kind = .release ∧ job.op.key = k ∧ job.op.leaseID = id)) :
    Backed s'.clock (s'.shards i) k id u := by
  intro hu
  obtain ⟨-, hclock, hentries⟩ := step_sound hi hs
  obtain ⟨d, hv, hd⟩ := h (lt_of_le_of_lt hclock hu)
  have he := hentries i k
  rw [hv] at he
  obtain ⟨d', hv', hd'⟩ := he.kept (lt_of_lt_of_le (lt_of_le_of_lt hclock hu) hd) hrel
  exact ⟨d', hv', le_trans hd hd'⟩

/-! ## Granting responses -/

/-- The response a worker holds is backed if it grants; a response that waits for the release of a
removed entry grants nothing. -/
def Worker.Honest (cfg : Config) (clock : Time) (shard : LeaseShard) : Worker → Prop
  | .releaseLoad job response => ∀ r, response = some r → ¬ Response.Grants job.op r
  | .releaseSwap job response _ => ∀ r, response = some r → ¬ Response.Grants job.op r
  | .reply job r => Response.Grants job.op r → r.ttlMS ≤ cfg.maxTTL ∧
      Backed clock shard job.op.key job.op.leaseID (job.now + r.ttlMS * millisecond)
  | _ => True

/-- A section that removed an entry grants nothing. -/
theorem lockedSection_removed {maxTTL : Nat} {shard : LeaseShard} {op : Operation} {now : Time}
    {r : Response} (h : (lockedSection maxTTL shard op now).removed ≠ 0)
    (hr : (lockedSection maxTTL shard op now).reply = some r) : ¬ Response.Grants op r := by
  rintro ⟨hkind, -, hpos⟩
  unfold lockedSection at h hr
  cases hk : op.kind with
  | acquire =>
    rw [hk] at h hr
    rcases acquireHead_cases shard maxTTL op now with
      ⟨d, -, -, heq⟩ | ⟨_, d, -, -, -, heq⟩ | ⟨_, d, p, -, -, -, heq⟩ | ⟨-, heq⟩
    · simp only [heq] at h; exact h rfl
    · simp only [heq] at h; exact h rfl
    · simp only [heq] at hr; cases hr
    · simp only [heq] at h; exact h rfl
  | renew =>
    rw [hk] at h hr
    rcases renewBody_cases shard maxTTL op now with
      ⟨-, heq⟩ | ⟨_, d, p, -, -, -, heq⟩ | ⟨_, d, -, -, -, heq⟩ |
      ⟨d, p, -, -, -, -, heq⟩ | ⟨d, -, -, -, heq⟩
    · simp only [heq] at h; exact h rfl
    · simp only [heq] at hr
      cases hr
      exact absurd hpos (Nat.lt_irrefl 0)
    · simp only [heq] at h; exact h rfl
    · simp only [heq] at h; exact h rfl
    · simp only [heq] at h; exact h rfl
  | release => exact hkind hk

/-- What follows a section hands over its response. -/
theorem proceed_honest {sh sh' : Shared n} {i : Fin n} {job : Job} {response : Option Response}
    {w' : Worker}
    (hr : ∀ r, response = some r → Response.Grants job.op r → r.ttlMS ≤ cfg.maxTTL ∧
      Backed sh.clock (sh.shards i) job.op.key job.op.leaseID (job.now + r.ttlMS * millisecond))
    (h : proceed cfg sh i job response = (sh', w')) : w'.Honest cfg sh'.clock (sh'.shards i) := by
  cases response with
  | some r =>
    cases h
    exact hr r rfl
  | none =>
    unfold proceed at h
    dsimp only at h
    split_ifs at h with h0
    · cases h
      rintro ⟨-, -, hpos⟩
      exact absurd hpos (Nat.lt_irrefl 0)
    · cases h
      trivial

/-- A worker's step leaves it with an honest response. -/
theorem Worker.step_honest {sh sh' : Shared n} {i : Fin n} {w w' : Worker} {pool : PoolGet}
    (hwf : ∀ i, (sh.shards i).WF) (hw : w.Inv cfg sh.clock (sh.shards i))
    (hh : w.Honest cfg sh.clock (sh.shards i)) (h : w.step cfg sh i pool = some (sh', w')) :
    w'.Honest cfg sh'.clock (sh'.shards i) := by
  cases w with
  | idle | dequeued op | admitted op | reply job response => cases h
  | lock job =>
    simp only [Worker.step] at h
    split_ifs at h with hmu h0
    · refine proceed_honest (fun r hr hg => ?_) (Option.some.inj h)
      obtain ⟨d, hv, hd, hmax⟩ := lockedSection_grants (hwf i) hr hg
      refine ⟨hmax, fun _ => ⟨d, ?_, hd⟩⟩
      show (Function.update sh.shards i _ i).view _ = _
      rw [Function.update_self, hv]
    · cases h
      exact fun r hr => lockedSection_removed h0 hr
  | releaseLoad job response =>
    simp only [Worker.step] at h
    cases hl : sh.releaseLoad 1 with
    | mk sh₁ c =>
      rw [hl] at h
      cases c with
      | some current => cases h; exact hh
      | none =>
        exact proceed_honest (fun r hr hg => absurd hg (hh r hr)) (Option.some.inj h)
  | releaseSwap job response current =>
    simp only [Worker.step] at h
    cases hl : sh.releaseSwap 1 current with
    | mk sh₁ c =>
      rw [hl] at h
      cases c with
      | true => exact proceed_honest (fun r hr hg => absurd hg (hh r hr)) (Option.some.inj h)
      | false => cases h; exact hh
  | reserveLoad job =>
    simp only [Worker.step] at h
    split_ifs at h with hfull hatt
    · cases h
      rintro ⟨-, -, hpos⟩
      exact absurd hpos (Nat.lt_irrefl 0)
    · cases h
      trivial
    · cases h
      trivial
  | reserveSwap job current =>
    simp only [Worker.step] at h
    split_ifs at h with hc
    all_goals cases h; trivial
  | insert job =>
    simp only [Worker.step] at h
    cases h
    obtain ⟨hkind, hv⟩ := hw.knows
    obtain ⟨-, hview, -⟩ := addLease_spec (hwf i) pool job.op.leaseID
      (job.now + effectiveTTLMS cfg.maxTTL job.op * millisecond) (view_eq_none.mp hv)
    refine fun _ => ⟨effectiveTTLMS_le _ _, fun _ => ⟨_, ?_, le_refl _⟩⟩
    show (Function.update sh.shards i _ i).view _ = _
    rw [Function.update_self, hview, if_pos rfl]
    rfl
  | cleanup job pass =>
    simp only [Worker.step] at h
    split at h
    · cases h; trivial
    · cases h; trivial
    · cases h

/-- Every worker is honest. -/
def Honest (cfg : Config) (s : State n m) : Prop :=
  ∀ i, (s.workers i).Honest cfg s.clock (s.shards i)

theorem honest_init (t₀ : Time) : Honest cfg (State.init n m t₀) := fun _ => trivial

/-- What a waiting worker holds stays honest while others move. -/
theorem Worker.Honest.step {a : Act n m} (hi : Server.Inv cfg assign s) {i : Fin n}
    (hh : (s.workers i).Honest cfg s.clock (s.shards i)) (hs : Server.step cfg assign s a = some s')
    (hact : s.acting a i = none) : (s.workers i).Honest cfg s'.clock (s'.shards i) := by
  cases hw : s.workers i with
  | reply job r =>
    rw [hw] at hh
    refine fun hg => ⟨(hh hg).1, (hh hg).2.step hi hs fun j hj => ?_⟩
    rw [hact] at hj
    cases hj
  | releaseLoad job response | releaseSwap job response current => rw [hw] at hh; exact hh
  | _ => trivial

/-- **Granting responses are backed** at every instant. -/
theorem step_honest {a : Act n m} (hi : Inv cfg assign s) (hh : Honest cfg s)
    (hs : step cfg assign s a = some s') : Honest cfg s' := by
  intro i
  cases step_worker hs i with
  | still hw ha =>
    rw [hw]
    exact (hh i).step hi hs ha
  | moved pool ha h =>
    exact Worker.step_honest hi.wf (hi.workers i) (hh i) h
  | dequeued op hw hw' | dropped op hw hw' | admitted op hw hw' | applied op now hw hn hw'
  | responded job r hw hw' => rw [hw']; trivial

/-! ## Runs -/

/-- Key `k` is held by lease ID `id`: it is stored with a deadline in the future, Acquire and Renew
with another lease ID are refused, and no step for another lease ID touches the entry. -/
structure Held (cfg : Config) (assign : Nat → Fin n) (s : State n m) (k : Nat) (id : LeaseID) :
    Prop where
  stored : ∃ d, s.stored assign k = some (id, d) ∧ s.clock < d
  refused : ∀ i pool job s', s.workers i = .lock job → job.op.key = k → job.op.leaseID ≠ id →
    step cfg assign s (.work i pool) = some s' →
    (job.op.kind = .acquire →
      s'.workers i = .reply job (acquireResponse job.op.requestID LeaseStatus.busy 0)) ∧
    (job.op.kind = .renew →
      s'.workers i = .reply job (renewResponse job.op.requestID LeaseStatus.stale 0))
  untouched : ∀ a s', step cfg assign s a = some s' →
    (∀ i job, s.acting a i = some job → job.op.leaseID ≠ id) →
    s'.stored assign k = s.stored assign k

/-- A live entry is held. -/
theorem held_of_stored (hi : Inv cfg assign s) {d : Time}
    (hv : s.stored assign k = some (id, d)) (hd : s.clock < d) : Held cfg assign s k id where
  stored := ⟨d, hv, hd⟩
  refused i pool job s' hw hkey hid hs := by
    have hhome : assign job.op.key = i := hi.home i job.op (by rw [hw]; rfl)
    subst hhome hkey
    have hnow : job.now < d :=
      lt_of_le_of_lt ((hi.workers _).now job (by rw [hw]; rfl)) hd
    obtain ⟨-, hrem, hacq, hren⟩ := lockedSection_foreign cfg.maxTTL hv hnow (Ne.symm hid)
    simp only [step, hw, Worker.step, hrem, if_true] at hs
    split_ifs at hs
    constructor
    · intro hkind
      rw [hacq hkind] at hs
      cases hs
      exact Function.update_self _ _ _
    · intro hkind
      rw [hren hkind] at hs
      cases hs
      exact Function.update_self _ _ _
  untouched a s' hs hj := by
    have he := (step_sound hi hs).2.2 (assign k) k
    have hv' : (s.shards (assign k)).view k = some (id, d) := hv
    rw [hv'] at he
    exact (he.foreign hd (hj _)).trans hv.symm

/-- **The promise of a granting response.** In every run of a server, once an Acquire or a Renew has
its granting response, its key is held by its lease ID at every instant before `now + ttl`, unless
the lease is released in between; and every stored deadline was set by an operation with the key
and lease ID of the entry, at most `MaxTTL` after the time that the operation read. -/
theorem promise_kept (cfg : Config) (assign : Nat → Fin n) (t₀ : Time) :
    (∀ (before after : List (Act n m)) (s s' : State n m) (i : Fin n) (job : Job) (r : Response),
      Trans.exec (step cfg assign) (State.init n m t₀) before = some s →
      s.workers i = .reply job r → Response.Grants job.op r →
      Trans.exec (step cfg assign) s after = some s' →
      Trans.Along (step cfg assign)
        (fun s a => ¬ Releases job.op.key job.op.leaseID s a) s after →
      s'.clock < job.now + r.ttlMS * millisecond →
      Held cfg assign s' job.op.key job.op.leaseID) ∧
    (∀ (acts : List (Act n m)) (s s' : State n m) (a : Act n m) (k : Nat) (id : LeaseID) (d : Time),
      Trans.exec (step cfg assign) (State.init n m t₀) acts = some s →
      step cfg assign s a = some s' → s'.stored assign k = some (id, d) →
      s.stored assign k = some (id, d) ∨
        ∃ i job, s.acting a i = some job ∧ job.op.key = k ∧ job.op.leaseID = id ∧
          d ≤ job.now + cfg.maxTTL * millisecond) := by
  constructor
  · intro before after s s' i job r h₀ hr hg h hrel ht
    have hih : Inv cfg assign s ∧ Honest cfg s :=
      Trans.exec_invariant (I := fun s => Inv cfg assign s ∧ Honest cfg s)
        (fun hi hs => ⟨(step_sound hi.1 hs).1, step_honest hi.1 hi.2 hs⟩)
        ⟨inv_init cfg assign t₀, honest_init t₀⟩ h₀
    have hhome : assign job.op.key = i := hih.1.home i job.op (by rw [hr]; rfl)
    subst hhome
    have hb := hih.2 (assign job.op.key)
    rw [hr] at hb
    have hend := Trans.exec_along (I := fun s => Inv cfg assign s ∧
        Backed s.clock (s.shards (assign job.op.key)) job.op.key job.op.leaseID
          (job.now + r.ttlMS * millisecond))
      (fun hi hP hs => ⟨(step_sound hi.1 hs).1,
        hi.2.step hi.1 hs fun j hj hc => hP ⟨_, j, hj, hc⟩⟩) ⟨hih.1, (hb hg).2⟩ hrel h
    obtain ⟨d, hv, hd⟩ := hend.2 ht
    exact held_of_stored hend.1 hv (lt_of_lt_of_le ht hd)
  · intro acts s s' a k id d h hs hv
    have he := (step_sound (inv_of_exec h) hs).2.2 (assign k) k
    have hv' : (s'.shards (assign k)).view k = some (id, d) := hv
    rw [hv'] at he
    refine he.origin.imp_right ?_
    rintro ⟨job, hj, hkey, hid, rfl⟩
    exact ⟨_, job, hj, hkey, hid,
      Nat.add_le_add_left (Nat.mul_le_mul_right _ (effectiveTTLMS_le _ _)) _⟩

/-- Key 0 is acquired for 2 ms. -/
def grantingActs : List (Act 2 1) :=
  [.activate, .dequeue 0 ⟨1, .acquire, 0, ⟨1, 1, 0⟩, 2, 0⟩, .check 0, .apply 0 0, .work 0 .fresh,
    .work 0 .fresh, .work 0 .fresh, .work 0 .fresh]

/-- 1 ms later another client's Acquire of key 0 is about to enter its section. -/
def rivalActs : List (Act 2 1) :=
  [.respond 0, .tick 1000000, .dequeue 0 ⟨2, .acquire, 0, ⟨2, 1, 0⟩, 2, 0⟩, .check 0,
    .apply 0 1000000]

theorem promise_kept_rivalActs :
    ∃ s s', Trans.exec (step tinyConfig (Fin.ofNat 2)) (State.init 2 1 0) grantingActs = some s ∧
      Trans.exec (step tinyConfig (Fin.ofNat 2)) s rivalActs = some s' ∧
      Held tinyConfig (Fin.ofNat 2) s' 0 ⟨1, 1, 0⟩ :=
  ⟨_, _, rfl, rfl, (promise_kept tinyConfig (Fin.ofNat 2) 0).1 grantingActs rivalActs _ _ 0
    ⟨⟨1, .acquire, 0, ⟨1, 1, 0⟩, 2, 0⟩, 0, false⟩ (acquireResponse 1 LeaseStatus.ok 2) rfl rfl
    ⟨nofun, Or.inl rfl, Nat.two_pos⟩ rfl
    (by simp [Trans.Along, rivalActs, Releases, State.acting]) (by decide)⟩

end RedLease.Server
