import RedLease.Server.Concurrent

/-!
# Capacity accounting under concurrency

The counter `keys` and the maps change in separate atomic steps: `reserveKey` counts an entry before
`addLease` stores it, a removal is counted off only after it happened, and a pass of
`removeExpiredKeys` counts its deletions off in one subtraction at the end. `debt` is what a thread
has counted and not stored, so that at every instant

  `keys = number of stored entries + debts of all threads`.

* `Effects` says what one step of a thread can do to the shared state, with its debt before and
  after; `Pass.step_effects` and `Worker.step_effects` prove it for the two kinds of threads.
* **`step_sound`**: every step of the server keeps the invariant `Inv` and changes a stored entry
  only as `EntryStep` says.
* **`capacity_accounted`**: in every reachable state the stored entries number at most `keys`, which
  is at most `MaxKeys`; `releaseKeys` never finds less than it has to release; and a quiescent server
  counts exactly its entries.
-/

namespace RedLease.Server

open Lib LeaseShard

variable {n m : Nat} {cfg : Config} {assign : Nat → Fin n}

/-! ## Debts -/

/-- What a pass has removed and not yet counted off. -/
def Pass.debt : Pass → Nat
  | .lock _ => 0
  | .scan _ _ deleted => deleted
  | .load deleted => deleted
  | .swap deleted _ => deleted

/-- What `keys` counts for a worker beyond the entries of its shard. -/
def Worker.debt : Worker → Nat
  | .releaseLoad _ _ | .releaseSwap _ _ _ | .insert _ => 1
  | .cleanup _ pass => pass.debt
  | _ => 0

/-- What `keys` counts for a cleaner. -/
def Cleaner.debt : Cleaner → Nat
  | .running pass => pass.debt
  | _ => 0

/-! ## What a step does to the shared state -/

/-- What can happen to the entry of key `k` in one step, by a worker on `job` or by a thread without
an operation: it expires, its own Release removes it, its own Renew moves it forward, or an Acquire
stores it. -/
inductive EntryStep (maxTTL : Nat) (clock : Time) (job : Option Job) (k : Nat) :
    Option (LeaseID × Time) → Option (LeaseID × Time) → Prop
  | same (e : Option (LeaseID × Time)) : EntryStep maxTTL clock job k e e
  | expired (id : LeaseID) (d : Time) (hd : d ≤ clock) :
      EntryStep maxTTL clock job k (some (id, d)) none
  | released (j : Job) (d : Time) (hj : job = some j) (hkind : j.op.kind = .release)
      (hkey : j.op.key = k) : EntryStep maxTTL clock job k (some (j.op.leaseID, d)) none
  | renewed (j : Job) (d : Time) (hj : job = some j) (hkind : j.op.kind = .renew)
      (hkey : j.op.key = k) (hlive : j.now < d)
      (hd : d < j.now + effectiveTTLMS maxTTL j.op * millisecond) :
      EntryStep maxTTL clock job k (some (j.op.leaseID, d))
        (some (j.op.leaseID, j.now + effectiveTTLMS maxTTL j.op * millisecond))
  | acquired (j : Job) (hj : job = some j) (hkind : j.op.kind = .acquire) (hkey : j.op.key = k) :
      EntryStep maxTTL clock job k none
        (some (j.op.leaseID, j.now + effectiveTTLMS maxTTL j.op * millisecond))

/-- What a thread's step does to the shared state: `who` is the job that acts on each shard, `debt`
and `debt'` what the thread owes before and after. -/
structure Effects (cfg : Config) (who : Fin n → Option Job) (sh sh' : Shared n)
    (debt debt' : Nat) : Prop where
  phase : sh'.phase = sh.phase
  clock : sh'.clock = sh.clock
  bound : sh.keys ≤ cfg.maxKeys → sh'.keys ≤ cfg.maxKeys
  wf : ∀ i, (sh'.shards i).WF
  balance : sh'.keys + sh.total + debt = sh.keys + sh'.total + debt'
  entries : ∀ i k, EntryStep cfg.maxTTL sh.clock (who i) k ((sh.shards i).view k)
    ((sh'.shards i).view k)

section Effects

variable {who : Fin n → Option Job} {sh sh' : Shared n} {i : Fin n} {d d' : Nat}

/-- A step that leaves the shards alone. -/
theorem Effects.still (hwf : ∀ i, (sh.shards i).WF) (hs : sh'.shards = sh.shards)
    (hp : sh'.phase = sh.phase) (hc : sh'.clock = sh.clock)
    (hb : sh.keys ≤ cfg.maxKeys → sh'.keys ≤ cfg.maxKeys) (hbal : sh'.keys + d = sh.keys + d') :
    Effects cfg who sh sh' d d' where
  phase := hp
  clock := hc
  bound := hb
  wf i := by rw [hs]; exact hwf i
  balance := by unfold Shared.total; rw [hs]; omega
  entries i k := by rw [hs]; exact .same _

/-- A step that replaces one shard. -/
theorem Effects.replace {shard : LeaseShard} (hwf : ∀ i, (sh.shards i).WF)
    (hs : sh'.shards = Function.update sh.shards i shard) (hp : sh'.phase = sh.phase)
    (hc : sh'.clock = sh.clock) (hk : sh'.keys = sh.keys) (hwf' : shard.WF)
    (hbal : (sh.shards i).size + d = shard.size + d')
    (he : ∀ k, EntryStep cfg.maxTTL sh.clock (who i) k ((sh.shards i).view k) (shard.view k)) :
    Effects cfg who sh sh' d d' where
  phase := hp
  clock := hc
  bound h := by rw [hk]; exact h
  wf j := by
    rw [hs]
    by_cases hj : j = i
    · subst hj; rw [Function.update_self]; exact hwf'
    · rw [Function.update_of_ne hj]; exact hwf j
  balance := by
    have := Family.sum_update LeaseShard.size sh.shards i shard
    unfold Shared.total
    rw [hs]
    omega
  entries j k := by
    rw [hs]
    by_cases hj : j = i
    · subst hj; rw [Function.update_self]; exact he k
    · rw [Function.update_of_ne hj]; exact .same _

theorem EntryStep.none_of_none {maxTTL : Nat} {clock : Time} {k : Nat}
    {e e' : Option (LeaseID × Time)} (h : EntryStep maxTTL clock none k e e') (he : e = none) :
    e' = none := by
  cases h with
  | same => exact he
  | expired => rfl
  | released j d hj | renewed j d hj | acquired j hj => cases hj

end Effects

/-! ## Passes -/

/-- What a pass knows: it read the clock, and what it loaded covers what it has to release. -/
def Pass.Inv (clock : Time) : Pass → Prop
  | .lock now => now ≤ clock
  | .scan now _ _ => now ≤ clock
  | .load _ => True
  | .swap deleted current => deleted ≤ current

theorem Pass.Inv.mono {clock clock' : Time} {p : Pass} (h : p.Inv clock) (hc : clock ≤ clock') :
    p.Inv clock' := by
  cases p with
  | lock now | scan now next deleted => exact le_trans h hc
  | load deleted => exact h
  | swap deleted current => exact h

/-- Where the counter covers the release, the load goes on to the compare-and-swap. -/
theorem Shared.releaseLoad_of_le {sh : Shared n} {count : Nat} (h : count ≤ sh.keys) :
    sh.releaseLoad count = (sh, some sh.keys) := by
  rw [Shared.releaseLoad, if_neg (not_lt.mpr h)]

/-- An entry that a sweep at `now` leaves or removes. -/
theorem EntryStep.swept {maxTTL : Nat} {now clock : Time} {job : Option Job} {k : Nat}
    (e : Option (LeaseID × Time)) (h : now ≤ clock) :
    EntryStep maxTTL clock job k e (liveAt now e) := by
  cases e with
  | none => exact .same none
  | some e =>
    obtain ⟨id, d⟩ := e
    rw [liveAt_some]
    split_ifs with hd
    · exact .same _
    · exact .expired id d (le_trans (not_lt.mp hd) h)

/-- **A step of a pass.** -/
theorem Pass.step_effects (cfg : Config) (who : Fin n → Option Job) {sh sh' : Shared n}
    {p : Pass} {p' : Option Pass} (hwf : ∀ i, (sh.shards i).WF) (hp : p.Inv sh.clock)
    (hd : p.debt ≤ sh.keys) (h : p.step sh = some (sh', p')) :
    Effects cfg who sh sh' p.debt (p'.elim 0 Pass.debt) ∧
      ∀ q, p' = some q → q.Inv sh.clock := by
  cases p with
  | lock now =>
    simp only [Pass.step] at h
    split_ifs at h
    cases h
    refine ⟨Effects.still hwf rfl rfl rfl id rfl, ?_⟩
    rintro q ⟨⟩
    exact hp
  | scan now next deleted =>
    simp only [Pass.step] at h
    split_ifs at h with hn hmu h0
    · cases h
      obtain ⟨hwf', hview, hsize⟩ := removeExpiredLeases_spec (hwf ⟨next, hn⟩) now
      refine ⟨Effects.replace hwf rfl rfl rfl rfl hwf' ?_ fun k => ?_, ?_⟩
      · show _ + deleted = _ + (deleted + _)
        omega
      · rw [hview]
        exact EntryStep.swept _ hp
      · rintro q ⟨⟩
        exact hp
    · cases h
      refine ⟨Effects.still hwf rfl rfl rfl id ?_, ?_⟩
      · rw [Pass.debt, h0]; rfl
      · rintro q ⟨⟩
    · cases h
      refine ⟨Effects.still hwf rfl rfl rfl id rfl, ?_⟩
      rintro q ⟨⟩
      trivial
  | load deleted =>
    have hle : deleted ≤ sh.keys := hd
    simp only [Pass.step, Shared.releaseLoad_of_le hle] at h
    cases h
    refine ⟨Effects.still hwf rfl rfl rfl id rfl, ?_⟩
    rintro q ⟨⟩
    exact hle
  | swap deleted current =>
    simp only [Pass.step, Shared.releaseSwap] at h
    by_cases hk : sh.keys = current
    · simp only [hk, if_true] at h
      cases h
      have hle : deleted ≤ current := hp
      refine ⟨Effects.still hwf rfl rfl rfl (fun hb => ?_) ?_, ?_⟩
      · exact le_trans (Nat.sub_le _ _) (hk ▸ hb)
      · show current - deleted + deleted = sh.keys + 0
        omega
      · rintro q ⟨⟩
    · simp only [hk, if_false] at h
      cases h
      refine ⟨Effects.still hwf rfl rfl rfl id rfl, ?_⟩
      rintro q ⟨⟩
      trivial

/-! ## Workers -/

/-- The job a worker is at. -/
def Worker.job : Worker → Option Job
  | .lock job | .releaseLoad job _ | .releaseSwap job _ _ | .reserveLoad job | .reserveSwap job _
  | .insert job | .cleanup job _ | .reply job _ => some job
  | _ => none

/-- The operation a worker has taken from its queue. -/
def Worker.operation : Worker → Option Operation
  | .dequeued op | .admitted op => some op
  | w => w.job.map Job.op

/-- An Acquire between its section and the insertion: its key is not stored. -/
def Job.Fresh (shard : LeaseShard) (job : Job) : Prop :=
  job.op.kind = .acquire ∧ shard.view job.op.key = none

/-- What a worker knows about its shard, beside the home of its key and the time it read. -/
def Worker.Knows (cfg : Config) (clock : Time) (shard : LeaseShard) : Worker → Prop
  | .releaseLoad job response => response = none → job.Fresh shard
  | .releaseSwap job response current => (response = none → job.Fresh shard) ∧ 1 ≤ current
  | .reserveLoad job => job.Fresh shard
  | .reserveSwap job current => job.Fresh shard ∧ current < cfg.maxKeys
  | .insert job => job.Fresh shard
  | .cleanup _ pass => pass.Inv clock
  | _ => True

/-- What a worker knows at each point of `apply`. -/
structure Worker.Inv (cfg : Config) (clock : Time) (shard : LeaseShard) (w : Worker) : Prop where
  now : ∀ job, w.job = some job → job.now ≤ clock
  knows : w.Knows cfg clock shard

/-- A worker's knowledge survives time and whatever others do to its shard. -/
theorem Worker.Inv.mono {clock clock' : Time} {shard shard' : LeaseShard} {w : Worker}
    (h : w.Inv cfg clock shard) (hc : clock ≤ clock')
    (hv : ∀ k, shard.view k = none → shard'.view k = none) : w.Inv cfg clock' shard' where
  now job hj := le_trans (h.now job hj) hc
  knows := by
    have hk := h.knows
    have hf : ∀ {job : Job}, job.Fresh shard → job.Fresh shard' := fun ⟨h1, h2⟩ => ⟨h1, hv _ h2⟩
    cases w with
    | releaseLoad job response => exact fun hr => hf (hk hr)
    | releaseSwap job response current => exact ⟨fun hr => hf (hk.1 hr), hk.2⟩
    | reserveLoad job => exact hf hk
    | reserveSwap job current => exact ⟨hf hk.1, hk.2⟩
    | insert job => exact hf hk
    | cleanup job pass => exact Pass.Inv.mono hk hc
    | _ => trivial

/-- What follows a section moves no key and no entry. -/
theorem Effects.proceed {who : Fin n → Option Job} {sh sh₁ sh' : Shared n} {i : Fin n} {job : Job}
    {response : Option Response} {w' : Worker} {d : Nat} (he : Effects cfg who sh sh₁ d 0)
    (hf : response = none → job.Fresh (sh₁.shards i)) (hn : job.now ≤ sh₁.clock)
    (h : proceed cfg sh₁ i job response = (sh', w')) :
    Effects cfg who sh sh' d w'.debt ∧ w'.Inv cfg sh'.clock (sh'.shards i) ∧
      w'.operation = some job.op := by
  have hjob : ∀ j, some job = some j → j.now ≤ sh₁.clock := by
    rintro j ⟨⟩
    exact hn
  have he' : Effects cfg who sh (sh₁.unlock i) d 0 :=
    ⟨he.phase, he.clock, he.bound, he.wf, he.balance, he.entries⟩
  cases response with
  | some r =>
    cases h
    exact ⟨he', ⟨hjob, trivial⟩, rfl⟩
  | none =>
    unfold Server.proceed at h
    dsimp only at h
    split_ifs at h with h0
    · cases h
      exact ⟨he', ⟨hjob, trivial⟩, rfl⟩
    · cases h
      exact ⟨he, ⟨hjob, hf rfl⟩, rfl⟩

/-- What a locked section does, as steps of the entries. -/
theorem EntryStep.of_effect {maxTTL removed : Nat} {clock : Time} {job : Job}
    {v v' : Nat → Option (LeaseID × Time)} (e : Effect maxTTL v v' job.op job.now removed)
    (hn : job.now ≤ clock) (k : Nat) : EntryStep maxTTL clock (some job) k (v k) (v' k) := by
  by_cases hk : k = job.op.key
  · subst hk
    cases e with
    | same hv => rw [hv]; exact .same _
    | removed id d hkey hwhy hv =>
      rw [hv, if_pos rfl, hkey]
      rcases hwhy with hd | ⟨hkind, rfl⟩
      · exact .expired id d (le_trans hd hn)
      · exact .released job d rfl hkind rfl
    | extended d hkind hkey hlive hd hv =>
      rw [hv, if_pos rfl, hkey]
      exact .renewed job d rfl hkind rfl hlive hd
  · rw [e.other hk]
    exact .same _

/-- **A step of a worker inside `apply`.** -/
theorem Worker.step_effects {sh sh' : Shared n} {i : Fin n} {w w' : Worker} {pool : PoolGet}
    (hwf : ∀ i, (sh.shards i).WF) (hw : w.Inv cfg sh.clock (sh.shards i)) (hd : w.debt ≤ sh.keys)
    (h : w.step cfg sh i pool = some (sh', w')) :
    Effects cfg (onShard i w.acting) sh sh' w.debt w'.debt ∧
      w'.Inv cfg sh'.clock (sh'.shards i) ∧ w'.operation = w.operation := by
  have hself : ∀ job, onShard i job i = job := fun job => if_pos rfl
  obtain ⟨hnow, hk⟩ := hw
  cases w with
  | idle | dequeued op | admitted op | reply job response => cases h
  | lock job =>
    have hn := hnow job rfl
    obtain ⟨hwf', hsize, heff⟩ := lockedSection_spec cfg.maxTTL job.op job.now (hwf i)
    have he : Effects cfg (onShard i (some job)) sh
        ((sh.setShard i (lockedSection cfg.maxTTL (sh.shards i) job.op job.now).shard).lock i) 0
        (lockedSection cfg.maxTTL (sh.shards i) job.op job.now).removed := by
      refine Effects.replace hwf rfl rfl rfl rfl hwf' (by omega) fun k => ?_
      rw [hself]
      exact EntryStep.of_effect heff hn k
    have hf : (lockedSection cfg.maxTTL (sh.shards i) job.op job.now).reply = none →
        job.Fresh (Function.update sh.shards i
          (lockedSection cfg.maxTTL (sh.shards i) job.op job.now).shard i) := by
      intro hr
      rw [Function.update_self]
      exact lockedSection_none (hwf i) hr
    simp only [Worker.step] at h
    split_ifs at h with hmu h0
    · rw [h0] at he
      exact he.proceed hf hn (Option.some.inj h)
    · cases h
      rw [heff.removed_cases.resolve_left h0] at he
      exact ⟨he, ⟨hnow, hf⟩, rfl⟩
  | releaseLoad job response =>
    have hle : 1 ≤ sh.keys := hd
    simp only [Worker.step, Shared.releaseLoad_of_le hle] at h
    cases h
    exact ⟨Effects.still hwf rfl rfl rfl id rfl, ⟨hnow, hk, hle⟩, rfl⟩
  | releaseSwap job response current =>
    simp only [Worker.step, Shared.releaseSwap] at h
    by_cases hc : sh.keys = current
    · simp only [hc, if_true] at h
      have he : Effects cfg (onShard i none) sh { sh with keys := current - 1 } 1 0 := by
        have := hk.2
        exact Effects.still hwf rfl rfl rfl (fun hb => le_trans (Nat.sub_le _ _) (hc ▸ hb))
          (by show current - 1 + 1 = sh.keys + 0; omega)
      exact he.proceed hk.1 (hnow job rfl) (Option.some.inj h)
    · simp only [hc, if_false] at h
      cases h
      exact ⟨Effects.still hwf rfl rfl rfl id rfl, ⟨hnow, hk.1⟩, rfl⟩
  | reserveLoad job =>
    simp only [Worker.step] at h
    split_ifs at h with hfull hatt
    · cases h
      exact ⟨Effects.still hwf rfl rfl rfl id rfl, ⟨hnow, trivial⟩, rfl⟩
    · cases h
      exact ⟨Effects.still hwf rfl rfl rfl id rfl, ⟨hnow, hnow job rfl⟩, rfl⟩
    · cases h
      exact ⟨Effects.still hwf rfl rfl rfl id rfl, ⟨hnow, hk, not_le.mp hfull⟩, rfl⟩
  | reserveSwap job current =>
    simp only [Worker.step] at h
    split_ifs at h with hc
    · cases h
      refine ⟨Effects.still hwf rfl rfl rfl (fun _ => hk.2) ?_, ⟨hnow, hk.1⟩, rfl⟩
      show current + 1 + 0 = sh.keys + 1
      omega
    · cases h
      exact ⟨Effects.still hwf rfl rfl rfl id rfl, ⟨hnow, hk.1⟩, rfl⟩
  | insert job =>
    obtain ⟨hkind, hv⟩ := hk
    simp only [Worker.step] at h
    cases h
    obtain ⟨hwf', hview, hsize⟩ := addLease_spec (hwf i) pool job.op.leaseID
      (job.now + effectiveTTLMS cfg.maxTTL job.op * millisecond) (view_eq_none.mp hv)
    refine ⟨Effects.replace hwf rfl rfl rfl rfl hwf' ?_ fun k => ?_, ⟨hnow, trivial⟩, rfl⟩
    · show _ + 1 = _ + 0
      omega
    · rw [hview, hself]
      split_ifs with hkey
      · subst hkey
        rw [hv]
        exact .acquired job rfl hkind rfl
      · exact .same _
  | cleanup job pass =>
    simp only [Worker.step] at h
    cases hs : pass.step sh with
    | none => rw [hs] at h; cases h
    | some r =>
      obtain ⟨sh₁, p'⟩ := r
      obtain ⟨heff, hp'⟩ := Pass.step_effects cfg (onShard i none) hwf hk hd hs
      rw [hs] at h
      cases p' with
      | some p' =>
        cases h
        exact ⟨heff, ⟨heff.clock ▸ hnow, heff.clock ▸ hp' p' rfl⟩, rfl⟩
      | none =>
        cases h
        refine ⟨heff, ⟨?_, trivial⟩, rfl⟩
        rintro j ⟨⟩
        rw [heff.clock]
        exact hnow job rfl

/-! ## The invariant -/

/-- What holds of a server at every instant. -/
structure Inv (cfg : Config) (assign : Nat → Fin n) (s : State n m) : Prop where
  phase : s.phase ≠ .failed
  wf : ∀ i, (s.shards i).WF
  workers : ∀ i, (s.workers i).Inv cfg s.clock (s.shards i)
  home : ∀ i op, (s.workers i).operation = some op → assign op.key = i
  cleaners : ∀ j pass, s.cleaners j = .running pass → pass.Inv s.clock
  balance : s.keys = s.total + ∑ i, (s.workers i).debt + ∑ j, (s.cleaners j).debt
  bound : s.keys ≤ cfg.maxKeys

theorem inv_init (cfg : Config) (assign : Nat → Fin n) (t₀ : Time) :
    Inv cfg assign (State.init n m t₀) where
  phase := nofun
  wf _ := wf_empty
  workers _ := ⟨nofun, trivial⟩
  home _ _ := nofun
  cleaners _ _ := nofun
  balance := by simp [State.init, Shared.total, Worker.debt, Cleaner.debt, size_empty]
  bound := Nat.zero_le _

section Step

variable {s s' : State n m}

/-- A worker's local step: to a place without debt from one without. -/
theorem Inv.setWorker (h : Inv cfg assign s) {i : Fin n} {w : Worker}
    (hw : w.Inv cfg s.clock (s.shards i)) (hhome : ∀ op, w.operation = some op → assign op.key = i)
    (hd : w.debt = (s.workers i).debt) : Inv cfg assign (s.setWorker i w) where
  phase := h.phase
  wf := h.wf
  workers := (Function.forall_update_iff s.workers fun j w =>
    w.Inv cfg s.clock (s.shards j)).mpr ⟨hw, fun j _ => h.workers j⟩
  home := (Function.forall_update_iff s.workers fun j w =>
    ∀ op, w.operation = some op → assign op.key = j).mpr ⟨hhome, fun j _ => h.home j⟩
  cleaners := h.cleaners
  balance := by
    have := h.balance
    have := Family.sum_update Worker.debt s.workers i w
    show s.keys = s.total + ∑ j, (Function.update s.workers i w j).debt +
      ∑ j, (s.cleaners j).debt
    omega
  bound := h.bound

/-- A worker's step on the shared state. -/
theorem Inv.setShared_setWorker (h : Inv cfg assign s) {i : Fin n} {w : Worker} {sh : Shared n}
    (he : Effects cfg (onShard i (s.workers i).acting) s.toShared sh (s.workers i).debt w.debt)
    (hw : w.Inv cfg sh.clock (sh.shards i)) (hop : w.operation = (s.workers i).operation) :
    Inv cfg assign ((s.setShared sh).setWorker i w) where
  phase := by
    show sh.phase ≠ .failed
    rw [he.phase]; exact h.phase
  wf := he.wf
  workers := by
    refine (Function.forall_update_iff s.workers fun j w => w.Inv cfg sh.clock (sh.shards j)).mpr
      ⟨hw, fun j hj => (h.workers j).mono (le_of_eq he.clock.symm) fun k hk => ?_⟩
    -- the acting job has no business in another shard
    have hstep := he.entries j k
    rw [onShard, if_neg hj] at hstep
    exact hstep.none_of_none hk
  home := (Function.forall_update_iff s.workers fun j w =>
    ∀ op, w.operation = some op → assign op.key = j).mpr ⟨hop ▸ h.home i, fun j _ => h.home j⟩
  cleaners j pass hp := by
    show pass.Inv sh.clock
    rw [he.clock]; exact h.cleaners j pass hp
  balance := by
    have := h.balance
    have := he.balance
    have := Family.sum_update Worker.debt s.workers i w
    show sh.keys = sh.total + ∑ j, (Function.update s.workers i w j).debt +
      ∑ j, (s.cleaners j).debt
    omega
  bound := he.bound h.bound

theorem Inv.setCleaner (h : Inv cfg assign s) {j : Fin m} {c : Cleaner}
    (hc : ∀ pass, c = .running pass → pass.Inv s.clock) (hd : c.debt = (s.cleaners j).debt) :
    Inv cfg assign (s.setCleaner j c) where
  phase := h.phase
  wf := h.wf
  workers := h.workers
  home := h.home
  cleaners := (Function.forall_update_iff s.cleaners fun _ c =>
    ∀ pass, c = .running pass → pass.Inv s.clock).mpr ⟨hc, fun l _ => h.cleaners l⟩
  balance := by
    have := h.balance
    have := Family.sum_update Cleaner.debt s.cleaners j c
    show s.keys = s.total + ∑ i, (s.workers i).debt +
      ∑ l, (Function.update s.cleaners j c l).debt
    omega
  bound := h.bound

theorem Inv.setShared_setCleaner (h : Inv cfg assign s) {j : Fin m} {c : Cleaner} {sh : Shared n}
    (he : Effects cfg (fun _ => none) s.toShared sh (s.cleaners j).debt c.debt)
    (hc : ∀ pass, c = .running pass → pass.Inv sh.clock) :
    Inv cfg assign ((s.setShared sh).setCleaner j c) where
  phase := by
    show sh.phase ≠ .failed
    rw [he.phase]; exact h.phase
  wf := he.wf
  workers i := (h.workers i).mono (le_of_eq he.clock.symm) fun k hk => (he.entries i k).none_of_none hk
  home := h.home
  cleaners := (Function.forall_update_iff s.cleaners fun _ c =>
    ∀ pass, c = .running pass → pass.Inv sh.clock).mpr
      ⟨hc, fun l _ => he.clock.symm ▸ h.cleaners l⟩
  balance := by
    have := h.balance
    have := he.balance
    have := Family.sum_update Cleaner.debt s.cleaners j c
    show sh.keys = sh.total + ∑ i, (s.workers i).debt +
      ∑ l, (Function.update s.cleaners j c l).debt
    omega
  bound := he.bound h.bound

/-- The debt of a worker is covered by the counter. -/
theorem Inv.worker_debt_le (h : Inv cfg assign s) (i : Fin n) : (s.workers i).debt ≤ s.keys := by
  have := h.balance
  have := Family.le_sum (fun i => (s.workers i).debt) i
  omega

theorem Inv.cleaner_debt_le (h : Inv cfg assign s) (j : Fin m) : (s.cleaners j).debt ≤ s.keys := by
  have := h.balance
  have := Family.le_sum (fun j => (s.cleaners j).debt) j
  omega

/-- **Every step keeps the invariant, and changes entries only as `EntryStep` says.** -/
theorem step_sound (h : Inv cfg assign s) {a : Act n m} (hs : step cfg assign s a = some s') :
    Inv cfg assign s' ∧ s.clock ≤ s'.clock ∧ ∀ i k, EntryStep cfg.maxTTL s.clock (s.acting a i) k
      ((s.shards i).view k) ((s'.shards i).view k) := by
  have same : ∀ {job : Fin n → Option Job}, ∀ i k, EntryStep cfg.maxTTL s.clock (job i) k
      ((s.shards i).view k) ((s.shards i).view k) := fun _ _ => .same _
  cases a with
  | tick now =>
    simp only [step] at hs
    split_ifs at hs with hc
    cases hs
    refine ⟨⟨h.phase, h.wf, fun i => ?_, h.home, fun j p hp => ?_, h.balance, h.bound⟩, hc, same⟩
    · exact (h.workers i).mono hc fun _ hv => hv
    · exact (h.cleaners j p hp).mono hc
  | dequeue i op =>
    simp only [step] at hs
    split at hs
    · rename_i hw
      split_ifs at hs with hhome
      cases hs
      refine ⟨h.setWorker ⟨by rintro _ ⟨⟩, trivial⟩ ?_ (by rw [hw]; rfl), le_refl _, same⟩
      rintro op' ⟨⟩
      exact hhome
    · cases hs
  | check i =>
    simp only [step] at hs
    split at hs
    · rename_i op hw
      cases hs
      have hhome := h.home i op (by rw [hw]; rfl)
      split_ifs
      · refine ⟨h.setWorker ⟨by rintro _ ⟨⟩, trivial⟩ ?_ (by rw [hw]; rfl), le_refl _, same⟩
        rintro op' ⟨⟩
        exact hhome
      · exact ⟨h.setWorker ⟨by rintro _ ⟨⟩, trivial⟩ (by rintro _ ⟨⟩) (by rw [hw]; rfl),
          le_refl _, same⟩
    · cases hs
  | apply i now =>
    simp only [step] at hs
    split at hs
    · rename_i op hw
      split_ifs at hs with hnow
      cases hs
      refine ⟨h.setWorker ⟨?_, trivial⟩ ?_ (by rw [hw]; rfl), le_refl _, same⟩
      · rintro job ⟨⟩
        exact hnow
      · rintro op' ⟨⟩
        exact h.home i op (by rw [hw]; rfl)
    · cases hs
  | work i pool =>
    simp only [step] at hs
    cases hw : (s.workers i).step cfg s.toShared i pool with
    | none => rw [hw] at hs; cases hs
    | some r =>
      obtain ⟨sh, w⟩ := r
      rw [hw] at hs
      cases hs
      obtain ⟨he, hinv, hop⟩ :=
        Worker.step_effects h.wf (h.workers i) (h.worker_debt_le i) hw
      exact ⟨h.setShared_setWorker he hinv hop, le_of_eq he.clock.symm, he.entries⟩
  | respond i =>
    simp only [step] at hs
    split at hs
    · rename_i job r hw
      cases hs
      exact ⟨h.setWorker ⟨by rintro _ ⟨⟩, trivial⟩ (by rintro _ ⟨⟩) (by rw [hw]; rfl),
          le_refl _, same⟩
    · cases hs
  | sweep j =>
    simp only [step] at hs
    split at hs
    · rename_i hw
      cases hs
      refine ⟨h.setCleaner ?_ ?_, le_refl _, same⟩
      · split_ifs <;> rintro _ ⟨⟩
      · rw [hw]; split_ifs <;> rfl
    · cases hs
  | start j now =>
    simp only [step] at hs
    split at hs
    · rename_i hw
      split_ifs at hs with hnow
      cases hs
      refine ⟨h.setCleaner ?_ (by rw [hw]; rfl), le_refl _, same⟩
      rintro pass ⟨⟩
      exact hnow
    · cases hs
  | pass j =>
    simp only [step] at hs
    split at hs
    · rename_i p hw
      cases hp : p.step s.toShared with
      | none => rw [hp] at hs; cases hs
      | some r =>
        obtain ⟨sh, p'⟩ := r
        have hd := h.cleaner_debt_le j
        rw [hw] at hd
        obtain ⟨he, hinv⟩ := Pass.step_effects cfg (fun _ => none) h.wf (h.cleaners j p hw) hd hp
        rw [hp] at hs
        cases p' with
        | some p' =>
          cases hs
          refine ⟨h.setShared_setCleaner (by rw [hw]; exact he) ?_, le_of_eq he.clock.symm,
            he.entries⟩
          rintro q ⟨⟩
          rw [he.clock]
          exact hinv p' rfl
        | none =>
          cases hs
          exact ⟨h.setShared_setCleaner (by rw [hw]; exact he) (by rintro _ ⟨⟩),
            le_of_eq he.clock.symm,
            he.entries⟩
    · cases hs
  | activate =>
    simp only [step] at hs
    split_ifs at hs
    cases hs
    exact ⟨⟨by rintro ⟨⟩, h.wf, h.workers, h.home, h.cleaners, h.balance, h.bound⟩, le_refl _, same⟩
  | close =>
    simp only [step] at hs
    cases hs
    exact ⟨⟨by rintro ⟨⟩, h.wf, h.workers, h.home, h.cleaners, h.balance, h.bound⟩, le_refl _, same⟩

end Step

/-- The invariant holds in every reachable state. -/
theorem inv_of_exec {t₀ : Time} {acts : List (Act n m)} {s : State n m}
    (h : Trans.exec (step cfg assign) (State.init n m t₀) acts = some s) : Inv cfg assign s :=
  Trans.exec_invariant (fun hi hs => (step_sound hi hs).1) (inv_init cfg assign t₀) h

/-! ## The accounting -/

/-- What a thread at the load in `releaseKeys` has to release. -/
def Pass.releasing : Pass → Option Nat
  | .load deleted => some deleted
  | _ => none

/-- What a worker there has to release. -/
def Worker.releasing : Worker → Option Nat
  | .releaseLoad _ _ => some 1
  | .cleanup _ pass => pass.releasing
  | _ => none

/-- What a cleaner there has to release. -/
def Cleaner.releasing : Cleaner → Option Nat
  | .running pass => pass.releasing
  | _ => none

/-- The counter covers the entries and stays within the capacity; whoever is about to release keys
finds enough of them; and when nobody is at work the counter is exact. -/
structure Accounted (cfg : Config) (s : State n m) : Prop where
  total_le : s.total ≤ s.keys
  keys_le : s.keys ≤ cfg.maxKeys
  workers : ∀ i count, (s.workers i).releasing = some count → count ≤ s.keys
  cleaners : ∀ j count, (s.cleaners j).releasing = some count → count ≤ s.keys
  phase : s.phase ≠ .failed
  quiescent : (∀ i, s.workers i = .idle) → (∀ j, s.cleaners j = .idle) → s.keys = s.total

theorem Pass.releasing_eq {p : Pass} {count : Nat} (h : p.releasing = some count) :
    count = p.debt := by
  cases p with
  | load deleted => cases h; rfl
  | _ => cases h

theorem Inv.accounted {s : State n m} (hi : Inv cfg assign s) : Accounted cfg s := by
  constructor
  · have := hi.balance
    omega
  · exact hi.bound
  · intro i count hc
    have hd := hi.worker_debt_le i
    cases hw : s.workers i with
    | releaseLoad job response =>
      rw [hw] at hc hd
      cases hc
      exact hd
    | cleanup job pass =>
      rw [hw] at hc hd
      rw [Pass.releasing_eq hc]
      exact hd
    | _ => rw [hw] at hc; cases hc
  · intro j count hc
    have hd := hi.cleaner_debt_le j
    cases hw : s.cleaners j with
    | running pass =>
      rw [hw] at hc hd
      rw [Pass.releasing_eq hc]
      exact hd
    | _ => rw [hw] at hc; cases hc
  · exact hi.phase
  · intro hw hc
    have := hi.balance
    simp only [hw, hc, Worker.debt, Cleaner.debt, Finset.sum_const_zero] at this
    exact this

/-- **Capacity accounting under concurrency**, for any number of shards and passes, any operations
and any interleaving. -/
theorem capacity_accounted (cfg : Config) (assign : Nat → Fin n) (t₀ : Time)
    (acts : List (Act n m)) {s : State n m}
    (h : Trans.exec (step cfg assign) (State.init n m t₀) acts = some s) : Accounted cfg s :=
  (inv_of_exec h).accounted

/-- Key 0 is acquired for 2 ms and expires; a background pass has removed it and not yet counted it
off when an Acquire of key 1, in the other shard, finds the capacity full. -/
def sweepingActs : List (Act 2 1) :=
  [.activate, .dequeue 0 ⟨1, .acquire, 0, ⟨1, 1, 0⟩, 2, 0⟩, .check 0, .apply 0 0, .work 0 .fresh,
    .work 0 .fresh, .work 0 .fresh, .work 0 .fresh, .respond 0, .tick 2000000, .sweep 0,
    .start 0 2000000, .pass 0, .pass 0, .dequeue 1 ⟨2, .acquire, 1, ⟨1, 1, 1⟩, 2, 0⟩, .check 1,
    .apply 1 2000000, .work 1 .fresh, .work 1 .fresh]

theorem capacity_accounted_sweepingActs :
    ∃ s, Trans.exec (step tinyConfig (Fin.ofNat 2)) (State.init 2 1 0) sweepingActs = some s ∧
      Accounted tinyConfig s ∧ s.keys = 1 ∧ s.workers 1 =
        .cleanup ⟨⟨2, .acquire, 1, ⟨1, 1, 1⟩, 2, 0⟩, 2000000, false⟩ (.lock 2000000) :=
  ⟨_, rfl, capacity_accounted tinyConfig (Fin.ofNat 2) 0 sweepingActs rfl, rfl, rfl⟩

end RedLease.Server
