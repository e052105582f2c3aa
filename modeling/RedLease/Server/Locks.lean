import RedLease.Server.Promise

/-!
# The locks of a server

Each worker holds the lock of its shard from the locked section to the last access of `keys` that
belongs to it. A pass of `removeExpiredKeys` holds `cleanupMu` from end to end and takes the lock of
each shard in turn. In the model the locks are fields that the steps set; here is what follows for
the threads.

* `PassTurn`, `WorkerTurn` and `Turn` say all that a step can do to a thread and to the locks, once
  for the steps of a pass, of a worker and of the server.
* **`Locks.after_turn`**: the lock of a shard is held as long as its worker is between two accesses
  of `keys`, and at most one thread is inside a pass.
* `State.owes_cases`: who has removed entries and not counted them off holds one of these locks.
-/

namespace RedLease.Server

open Lib LeaseShard

variable {n m : Nat} {cfg : Config} {assign : Nat → Fin n}

/-! ## What a step of a thread does to the locks -/

/-- The pass holds `cleanupMu`. -/
def Pass.inside : Pass → Bool
  | .lock _ => false
  | _ => true

/-- How many shards the pass has behind it. -/
def Pass.reached (n : Nat) : Pass → Nat
  | .lock _ => 0
  | .scan _ next _ => next
  | .load _ | .swap _ _ => n

/-- The time a pass still needs. -/
def Pass.now : Pass → Option Time
  | .lock now | .scan now _ _ => some now
  | .load _ | .swap _ _ => none

/-- All that a step of a pass can do. -/
inductive PassTurn (sh sh' : Shared n) : Pass → Option Pass → Prop
  | entered (now : Time) (hfree : sh.cleanupMu = false) (hshards : sh'.shards = sh.shards)
      (hmu : sh'.mu = sh.mu) (hc : sh'.cleanupMu = true) :
      PassTurn sh sh' (.lock now) (some (.scan now 0 0))
  | scanned (now : Time) (next : Nat) (hn : next < n) (deleted : Nat)
      (hfree : sh.mu ⟨next, hn⟩ = false)
      (hshards : sh'.shards = Function.update sh.shards ⟨next, hn⟩
        ((sh.shards ⟨next, hn⟩).removeExpiredLeases now).1)
      (hmu : sh'.mu = sh.mu) (hc : sh'.cleanupMu = sh.cleanupMu) :
      PassTurn sh sh' (.scan now next deleted) (some (.scan now (next + 1)
        (deleted + ((sh.shards ⟨next, hn⟩).removeExpiredLeases now).2)))
  /-- On to `releaseKeys`, and round its loop. -/
  | releasing (p p' : Pass) (hin : p.inside = true) (hall : n ≤ p.reached n)
      (hnow : p'.now = none) (hdebt : p'.debt = p.debt) (hshards : sh'.shards = sh.shards)
      (hmu : sh'.mu = sh.mu) (hc : sh'.cleanupMu = sh.cleanupMu) : PassTurn sh sh' p (some p')
  | left (p : Pass) (hin : p.inside = true) (hall : n ≤ p.reached n)
      (hshards : sh'.shards = sh.shards) (hmu : sh'.mu = sh.mu) : PassTurn sh sh' p none

theorem fail_shards (sh : Shared n) : sh.fail.shards = sh.shards ∧ sh.fail.mu = sh.mu ∧
    sh.fail.cleanupMu = sh.cleanupMu := by
  unfold Shared.fail
  split_ifs
  · exact ⟨rfl, rfl, rfl⟩
  · exact ⟨rfl, rfl, rfl⟩

theorem Pass.step_turn {sh sh' : Shared n} {p : Pass} {p' : Option Pass}
    (h : p.step sh = some (sh', p')) : PassTurn sh sh' p p' := by
  cases p with
  | lock now =>
    simp only [Pass.step] at h
    split_ifs at h with hmu
    cases h
    exact .entered now (Bool.eq_false_iff.mpr hmu) rfl rfl rfl
  | scan now next deleted =>
    simp only [Pass.step] at h
    split_ifs at h with hn hmu h0
    · cases h
      exact .scanned now next hn deleted (Bool.eq_false_iff.mpr hmu) rfl rfl rfl
    · cases h
      exact .left _ rfl (not_lt.mp hn) rfl rfl
    · cases h
      exact .releasing _ _ rfl (not_lt.mp hn) rfl rfl rfl rfl rfl
  | load deleted =>
    simp only [Pass.step, Shared.releaseLoad] at h
    by_cases hlt : sh.keys < deleted
    · simp only [hlt, if_true] at h
      cases h
      obtain ⟨hshards, hmu, -⟩ := fail_shards sh
      exact .left _ rfl (le_refl n) hshards hmu
    · simp only [hlt, if_false] at h
      cases h
      exact .releasing _ _ rfl (le_refl n) rfl rfl rfl rfl rfl
  | swap deleted current =>
    simp only [Pass.step, Shared.releaseSwap] at h
    by_cases hk : sh.keys = current
    · simp only [hk, if_true] at h
      cases h
      exact .left _ rfl (le_refl n) rfl rfl
    · simp only [hk, if_false] at h
      cases h
      exact .releasing _ _ rfl (le_refl n) rfl rfl rfl rfl rfl

/-- The worker holds the lock of its shard. -/
def Worker.locked : Worker → Bool
  | .releaseLoad _ _ | .releaseSwap _ _ _ | .reserveLoad _ | .reserveSwap _ _ | .insert _ => true
  | _ => false

/-- What the worker has removed and not yet counted off. -/
def Worker.owes : Worker → Nat
  | .releaseLoad _ _ | .releaseSwap _ _ _ => 1
  | .cleanup _ pass => pass.debt
  | _ => 0

/-- What the worker has reserved and not yet stored. -/
def Worker.reserves : Worker → Nat
  | .insert _ => 1
  | _ => 0

/-- The pass the worker is in. -/
def Worker.pass : Worker → Option Pass
  | .cleanup _ pass => some pass
  | _ => none

/-- The pass of a cleaner. -/
def Cleaner.pass : Cleaner → Option Pass
  | .running pass => some pass
  | _ => none

/-- All that a step of the worker of shard `i` can do inside `apply`. -/
inductive WorkerTurn (cfg : Config) (sh sh' : Shared n) (i : Fin n) : Worker → Worker → Prop
  /-- The locked section, to its end or to the next access of `keys`. -/
  | sectioned (job : Job) (w' : Worker) (hmu : sh.mu i = false)
      (hshards : sh'.shards = Function.update sh.shards i
        (lockedSection cfg.maxTTL (sh.shards i) job.op job.now).shard)
      (hother : ∀ j, j ≠ i → sh'.mu j = sh.mu j) (hc : sh'.cleanupMu = sh.cleanupMu)
      (howes : w'.owes ≠ 0 →
        w'.owes = 1 ∧ (lockedSection cfg.maxTTL (sh.shards i) job.op job.now).removed ≠ 0)
      (hw' : w'.locked = true ∧ w'.job = some job ∧ sh'.mu i = true ∨ ∃ r, w' = .reply job r) :
      WorkerTurn cfg sh sh' i (.lock job) w'
  /-- On to the next access of `keys`. -/
  | held (w w' : Worker) (job : Job) (hw : w.locked = true) (hw' : w'.locked = true)
      (hjob : w.job = some job) (hjob' : w'.job = some job)
      (hshards : sh'.shards = sh.shards) (hmu : sh'.mu = sh.mu) (hc : sh'.cleanupMu = sh.cleanupMu)
      (howes : w'.owes ≠ 0 → w'.owes = w.owes) : WorkerTurn cfg sh sh' i w w'
  /-- The lock is given back with a response or for a cleanup. -/
  | freed (w w' : Worker) (job : Job) (hw : w.locked = true) (hjob : w.job = some job)
      (hw' : (∃ r, w' = .reply job r) ∨ w' = .cleanup job (.lock job.now))
      (hshards : sh'.shards = sh.shards) (hmu : sh'.mu = Function.update sh.mu i false)
      (hc : sh'.cleanupMu = sh.cleanupMu) : WorkerTurn cfg sh sh' i w w'
  | inserted (job : Job) (r : Response) (shard : LeaseShard)
      (hshards : sh'.shards = Function.update sh.shards i shard)
      (hmu : sh'.mu = Function.update sh.mu i false) (hc : sh'.cleanupMu = sh.cleanupMu) :
      WorkerTurn cfg sh sh' i (.insert job) (.reply job r)
  | passed (job : Job) (pass pass' : Pass) (h : PassTurn sh sh' pass (some pass')) :
      WorkerTurn cfg sh sh' i (.cleanup job pass) (.cleanup job pass')
  | cleaned (job : Job) (pass : Pass) (h : PassTurn sh sh' pass none) :
      WorkerTurn cfg sh sh' i (.cleanup job pass) (.lock { job with cleanupAttempted := true })

/-- What follows a section keeps the lock for `reserveKey`, or gives it back. -/
theorem proceed_turn {sh sh' : Shared n} {i : Fin n} {job : Job} {response : Option Response}
    {w' : Worker} (h : proceed cfg sh i job response = (sh', w')) :
    sh' = sh ∧ w' = .reserveLoad job ∨ sh' = sh.unlock i ∧ ∃ r, w' = .reply job r := by
  cases response with
  | some r =>
    cases h
    exact Or.inr ⟨rfl, r, rfl⟩
  | none =>
    unfold proceed at h
    dsimp only at h
    split_ifs at h
    · cases h
      exact Or.inr ⟨rfl, _, rfl⟩
    · cases h
      exact Or.inl ⟨rfl, rfl⟩

theorem WorkerTurn.of_proceed {sh sh₁ sh' : Shared n} {i : Fin n} {w w' : Worker} {job : Job}
    {response : Option Response} (h : proceed cfg sh₁ i job response = (sh', w'))
    (hw : w.locked = true) (hjob : w.job = some job) (hshards : sh₁.shards = sh.shards)
    (hmu : sh₁.mu = sh.mu) (hc : sh₁.cleanupMu = sh.cleanupMu) : WorkerTurn cfg sh sh' i w w' := by
  rcases proceed_turn h with ⟨rfl, rfl⟩ | ⟨rfl, hr⟩
  · exact .held w _ job hw rfl hjob rfl hshards hmu hc (absurd rfl)
  · refine .freed w w' job hw hjob (Or.inl hr) hshards ?_ hc
    show Function.update sh₁.mu i false = _
    rw [hmu]

theorem Worker.step_turn {sh sh' : Shared n} {i : Fin n} {w w' : Worker} {pool : PoolGet}
    (h : w.step cfg sh i pool = some (sh', w')) : WorkerTurn cfg sh sh' i w w' := by
  cases w with
  | idle | dequeued op | admitted op | reply job response => cases h
  | lock job =>
    simp only [Worker.step] at h
    split_ifs at h with hmu h0
    · have hother : ∀ j, j ≠ i → Function.update sh.mu i true j = sh.mu j :=
        fun j hj => Function.update_of_ne hj _ _
      rcases proceed_turn (Option.some.inj h) with ⟨rfl, rfl⟩ | ⟨rfl, r, rfl⟩
      · exact .sectioned job _ (Bool.eq_false_iff.mpr hmu) rfl hother rfl (absurd rfl)
          (Or.inl ⟨rfl, rfl, Function.update_self _ _ _⟩)
      · refine .sectioned job _ (Bool.eq_false_iff.mpr hmu) rfl (fun j hj => ?_) rfl (absurd rfl)
          (Or.inr ⟨r, rfl⟩)
        exact (Function.update_of_ne hj _ _).trans (hother j hj)
    · cases h
      exact .sectioned job _ (Bool.eq_false_iff.mpr hmu) rfl
        (fun j hj => Function.update_of_ne hj _ _) rfl (fun _ => ⟨rfl, h0⟩)
        (Or.inl ⟨rfl, rfl, Function.update_self _ _ _⟩)
  | releaseLoad job response =>
    simp only [Worker.step, Shared.releaseLoad] at h
    by_cases hlt : sh.keys < 1
    · simp only [hlt, if_true] at h
      obtain ⟨hshards, hmu, hc⟩ := fail_shards sh
      exact .of_proceed (Option.some.inj h) rfl rfl hshards hmu hc
    · simp only [hlt, if_false] at h
      cases h
      exact .held _ _ job rfl rfl rfl rfl rfl rfl rfl fun _ => rfl
  | releaseSwap job response current =>
    simp only [Worker.step, Shared.releaseSwap] at h
    by_cases hk : sh.keys = current
    · simp only [hk, if_true] at h
      exact .of_proceed (Option.some.inj h) rfl rfl rfl rfl rfl
    · simp only [hk, if_false] at h
      cases h
      exact .held _ _ job rfl rfl rfl rfl rfl rfl rfl fun _ => rfl
  | reserveLoad job =>
    simp only [Worker.step] at h
    split_ifs at h with hfull hatt
    · cases h
      exact .freed _ _ job rfl rfl (Or.inl ⟨_, rfl⟩) rfl rfl rfl
    · cases h
      exact .freed _ _ job rfl rfl (Or.inr rfl) rfl rfl rfl
    · cases h
      exact .held _ _ job rfl rfl rfl rfl rfl rfl rfl (absurd rfl)
  | reserveSwap job current =>
    simp only [Worker.step] at h
    split_ifs at h with hk
    · cases h
      exact .held _ _ job rfl rfl rfl rfl rfl rfl rfl (absurd rfl)
    · cases h
      exact .held _ _ job rfl rfl rfl rfl rfl rfl rfl (absurd rfl)
  | insert job =>
    simp only [Worker.step] at h
    cases h
    exact .inserted job _ _ rfl rfl rfl
  | cleanup job pass =>
    simp only [Worker.step] at h
    cases hs : pass.step sh with
    | none => rw [hs] at h; cases h
    | some r =>
      obtain ⟨sh₁, p'⟩ := r
      rw [hs] at h
      cases p' with
      | some p' =>
        cases h
        exact .passed job pass p' (Pass.step_turn hs)
      | none =>
        cases h
        exact .cleaned job pass (Pass.step_turn hs)

/-! ## A step of the server, thread by thread -/

/-- A shard's worker or a goroutine that runs passes. -/
abbrev Thread (n m : Nat) := Fin n ⊕ Fin m

/-- The thread that accesses the shards and `keys` in this step. -/
def Act.mover : Act n m → Option (Thread n m)
  | .work i _ => some (.inl i)
  | .pass j => some (.inr j)
  | _ => none

namespace State

/-- The pass that a thread is in. -/
def pass (s : State n m) : Thread n m → Option Pass
  | .inl i => (s.workers i).pass
  | .inr j => (s.cleaners j).pass

/-- A thread holds `cleanupMu`. -/
def cleaning (s : State n m) (x : Thread n m) : Bool := (s.pass x).any Pass.inside

theorem cleaning_inl (s : State n m) (i : Fin n) :
    s.cleaning (.inl i) = (s.workers i).pass.any Pass.inside := rfl

theorem cleaning_inr (s : State n m) (j : Fin m) :
    s.cleaning (.inr j) = (s.cleaners j).pass.any Pass.inside := rfl

/-- What a thread has removed and not yet counted off. -/
def owes (s : State n m) : Thread n m → Nat
  | .inl i => (s.workers i).owes
  | .inr j => (s.cleaners j).debt

end State

/-- The worker holds no lock and is in no pass. -/
def Worker.aside : Worker → Bool
  | .idle | .dequeued _ | .admitted _ | .lock _ | .reply _ _ => true
  | _ => false

/-- The cleaner holds no lock of a shard. -/
def Cleaner.aside : Cleaner → Bool
  | .idle | .admitted | .running (.lock _) => true
  | .running _ => false

/-- All that a step of the server can do to its threads and its locks. -/
inductive Turn (cfg : Config) (s s' : State n m) : Act n m → Prop
  | quiet (a : Act n m) (ha : a.mover = none) (hshards : s'.shards = s.shards)
      (hmu : s'.mu = s.mu) (hc : s'.cleanupMu = s.cleanupMu)
      (hworkers : ∀ i, s'.workers i = s.workers i ∨
        (s.workers i).aside = true ∧ (s'.workers i).aside = true)
      (hcleaners : ∀ j, s'.cleaners j = s.cleaners j ∨
        (s.cleaners j).aside = true ∧ (s'.cleaners j).aside = true) : Turn cfg s s' a
  | worker (i : Fin n) (pool : PoolGet)
      (h : WorkerTurn cfg s.toShared s'.toShared i (s.workers i) (s'.workers i))
      (hother : ∀ j, j ≠ i → s'.workers j = s.workers j) (hcleaners : s'.cleaners = s.cleaners) :
      Turn cfg s s' (.work i pool)
  | cleaner (j : Fin m) (p : Pass) (p' : Option Pass) (hc : s.cleaners j = .running p)
      (hc' : s'.cleaners j = p'.elim .idle .running)
      (h : PassTurn s.toShared s'.toShared p p') (hworkers : s'.workers = s.workers)
      (hother : ∀ l, l ≠ j → s'.cleaners l = s.cleaners l) : Turn cfg s s' (.pass j)

section Turns

variable {s s' : State n m} {a : Act n m}

theorem Turn.setWorker {i : Fin n} {w : Worker} (ha : a.mover = none)
    (hw : (s.workers i).aside = true) (hw' : w.aside = true) : Turn cfg s (s.setWorker i w) a := by
  refine .quiet a ha rfl rfl rfl (fun j => ?_) fun _ => Or.inl rfl
  by_cases hj : j = i
  · subst hj
    refine Or.inr ⟨hw, ?_⟩
    show (Function.update s.workers j w j).aside = true
    rwa [Function.update_self]
  · exact Or.inl (Function.update_of_ne hj _ _)

theorem Turn.setCleaner {j : Fin m} {c : Cleaner} (ha : a.mover = none)
    (hc : (s.cleaners j).aside = true) (hc' : c.aside = true) :
    Turn cfg s (s.setCleaner j c) a := by
  refine .quiet a ha rfl rfl rfl (fun _ => Or.inl rfl) fun l => ?_
  by_cases hl : l = j
  · subst hl
    refine Or.inr ⟨hc, ?_⟩
    show (Function.update s.cleaners l c l).aside = true
    rwa [Function.update_self]
  · exact Or.inl (Function.update_of_ne hl _ _)

theorem step_turn (hs : step cfg assign s a = some s') : Turn cfg s s' a := by
  have still : ∀ {t : State n m}, a.mover = none → t.shards = s.shards → t.mu = s.mu →
      t.cleanupMu = s.cleanupMu → t.workers = s.workers → t.cleaners = s.cleaners →
      Turn cfg s t a := fun ha hshards hmu hc hw hcl =>
    .quiet a ha hshards hmu hc (fun i => Or.inl (congrFun hw i)) fun j => Or.inl (congrFun hcl j)
  cases a with
  | tick now =>
    simp only [step] at hs
    split_ifs at hs
    cases hs
    exact still rfl rfl rfl rfl rfl rfl
  | dequeue i op =>
    simp only [step] at hs
    split at hs
    · rename_i hw
      split_ifs at hs
      cases hs
      exact .setWorker rfl (by rw [hw]; rfl) rfl
    · cases hs
  | check i =>
    simp only [step] at hs
    split at hs
    · rename_i op hw
      cases hs
      refine .setWorker rfl (by rw [hw]; rfl) ?_
      split_ifs <;> rfl
    · cases hs
  | apply i now =>
    simp only [step] at hs
    split at hs
    · rename_i op hw
      split_ifs at hs
      cases hs
      exact .setWorker rfl (by rw [hw]; rfl) rfl
    · cases hs
  | work i pool =>
    simp only [step] at hs
    cases hw : (s.workers i).step cfg s.toShared i pool with
    | none => rw [hw] at hs; cases hs
    | some r =>
      obtain ⟨sh, w⟩ := r
      rw [hw] at hs
      cases hs
      refine .worker i pool ?_ (fun j hj => Function.update_of_ne hj _ _) rfl
      show WorkerTurn cfg s.toShared sh i (s.workers i) (Function.update s.workers i w i)
      rw [Function.update_self]
      exact Worker.step_turn hw
  | respond i =>
    simp only [step] at hs
    split at hs
    · rename_i job r hw
      cases hs
      exact .setWorker rfl (by rw [hw]; rfl) rfl
    · cases hs
  | sweep j =>
    simp only [step] at hs
    split at hs
    · rename_i hc
      cases hs
      refine .setCleaner rfl (by rw [hc]; rfl) ?_
      split_ifs <;> rfl
    · cases hs
  | start j now =>
    simp only [step] at hs
    split at hs
    · rename_i hc
      split_ifs at hs
      cases hs
      exact .setCleaner rfl (by rw [hc]; rfl) rfl
    · cases hs
  | pass j =>
    simp only [step] at hs
    split at hs
    · rename_i p hc
      cases hp : p.step s.toShared with
      | none => rw [hp] at hs; cases hs
      | some r =>
        obtain ⟨sh, p'⟩ := r
        rw [hp] at hs
        cases p' with
        | some p' =>
          cases hs
          exact .cleaner j p (some p') hc (Function.update_self _ _ _) (Pass.step_turn hp) rfl
            fun l hl => Function.update_of_ne hl _ _
        | none =>
          cases hs
          exact .cleaner j p none hc (Function.update_self _ _ _) (Pass.step_turn hp) rfl
            fun l hl => Function.update_of_ne hl _ _
    · cases hs
  | activate =>
    simp only [step] at hs
    split_ifs at hs
    cases hs
    exact still rfl rfl rfl rfl rfl rfl
  | close =>
    simp only [step] at hs
    cases hs
    exact still rfl rfl rfl rfl rfl rfl

/-! ## Who holds which lock -/

theorem Worker.aside_facts {w : Worker} (h : w.aside = true) :
    w.locked = false ∧ w.pass = none ∧ w.owes = 0 := by
  cases w <;> first | exact ⟨rfl, rfl, rfl⟩ | cases h

theorem Worker.pass_of_locked {w : Worker} (h : w.locked = true) : w.pass = none := by
  cases w <;> first | rfl | cases h

theorem Cleaner.aside_facts {c : Cleaner} (h : c.aside = true) :
    c.pass.any Pass.inside = false ∧ c.debt = 0 := by
  cases c with
  | idle | admitted => exact ⟨rfl, rfl⟩
  | running pass =>
    cases pass with
    | lock now => exact ⟨rfl, rfl⟩
    | scan now next deleted | load deleted | swap deleted current => cases h

/-- A worker holds the lock of its shard while it is between two accesses of `keys`, and at most one
thread is inside a pass. -/
structure Locks (s : State n m) : Prop where
  mu : ∀ i, (s.workers i).locked = true → s.mu i = true
  held : ∀ x, s.cleaning x = true → s.cleanupMu = true
  one : ∀ x y, s.cleaning x = true → s.cleaning y = true → x = y

theorem locks_init (t₀ : Time) : Locks (State.init n m t₀) where
  mu _ := nofun
  held x := by cases x <;> nofun
  one x := by cases x <;> nofun

/-- Nobody enters or leaves a pass. -/
theorem Locks.same (h : Locks s) (hmu : ∀ i, (s'.workers i).locked = true → s'.mu i = true)
    (hc : s'.cleanupMu = s.cleanupMu) (hclean : ∀ x, s'.cleaning x = true → s.cleaning x = true) :
    Locks s' where
  mu := hmu
  held x hx := by rw [hc]; exact h.held x (hclean x hx)
  one x y hx hy := h.one x y (hclean x hx) (hclean y hy)

/-- A pass moves. -/
theorem Locks.passed (h : Locks s) {x : Thread n m} {p : Pass} {p' : Option Pass}
    (ht : PassTurn s.toShared s'.toShared p p') (hx : s.pass x = some p) (hx' : s'.pass x = p')
    (hother : ∀ y, y ≠ x → s'.pass y = s.pass y)
    (hworkers : ∀ i, (s'.workers i).locked = true → (s.workers i).locked = true) : Locks s' := by
  have hkept : ∀ y, y ≠ x → s'.cleaning y = s.cleaning y := fun y hy => by
    unfold State.cleaning
    rw [hother y hy]
  have hmu : s'.mu = s.mu → ∀ i, (s'.workers i).locked = true → s'.mu i = true :=
    fun heq i hi => by rw [heq]; exact h.mu i (hworkers i hi)
  -- while the pass stays inside, it is the one that was inside before
  have hstays : p.inside = true → s'.mu = s.mu → s'.cleanupMu = s.cleanupMu → Locks s' :=
    fun hin hm hc => h.same (hmu hm) hc fun y hy => by
      by_cases hyx : y = x
      · rw [hyx, State.cleaning, hx]
        exact hin
      · rwa [← hkept y hyx]
  cases ht with
  | entered now hfree hshards hm hc =>
    have hnone : ∀ y, s.cleaning y ≠ true := fun y hy => by
      have hlocked := h.held y hy
      rw [hfree] at hlocked
      cases hlocked
    have honly : ∀ y, s'.cleaning y = true → y = x := fun y hy => by
      by_contra hyx
      rw [hkept y hyx] at hy
      exact hnone y hy
    exact ⟨hmu hm, fun _ _ => hc, fun y z hy hz => (honly y hy).trans (honly z hz).symm⟩
  | scanned now next hn deleted hfree hshards hm hc => exact hstays rfl hm hc
  | releasing _ p' hin hall hnow hdebt hshards hm hc => exact hstays hin hm hc
  | left _ hin hall hshards hm =>
    have hold : s.cleaning x = true := by
      rw [State.cleaning, hx]
      exact hin
    have hnone : ∀ y, s'.cleaning y ≠ true := fun y hy => by
      by_cases hyx : y = x
      · rw [hyx, State.cleaning, hx'] at hy
        cases hy
      · rw [hkept y hyx] at hy
        exact hyx (h.one y x hy hold)
    exact ⟨hmu hm, fun y hy => absurd hy (hnone y), fun y _ hy => absurd hy (hnone y)⟩

theorem Locks.after_turn (h : Locks s) (ht : Turn cfg s s' a) : Locks s' := by
  cases ht with
  | quiet _ ha hshards hmu hc hworkers hcleaners =>
    refine h.same (fun i hi => ?_) hc fun x hx => ?_
    · rw [hmu]
      rcases hworkers i with hw | ⟨-, hw⟩
      · exact h.mu i (hw ▸ hi)
      · rw [(Worker.aside_facts hw).1] at hi
        cases hi
    · cases x with
      | inl i =>
        rw [State.cleaning_inl] at hx ⊢
        rcases hworkers i with hw | ⟨-, hw⟩
        · rwa [← hw]
        · rw [(Worker.aside_facts hw).2.1] at hx
          cases hx
      | inr j =>
        rw [State.cleaning_inr] at hx ⊢
        rcases hcleaners j with hc | ⟨-, hc⟩
        · rwa [← hc]
        · rw [(Cleaner.aside_facts hc).1] at hx
          cases hx
  | worker i pool hw hother hcleaners =>
    have hmu_of : (∀ j, j ≠ i → s'.mu j = s.mu j) →
        ((s'.workers i).locked = true → s'.mu i = true) →
        ∀ j, (s'.workers j).locked = true → s'.mu j = true := fun hm hi j hj => by
      by_cases hji : j = i
      · exact hji ▸ hi (hji ▸ hj)
      · rw [hm j hji]
        exact h.mu j (hother j hji ▸ hj)
    have hclean_of : ((s'.workers i).pass.any Pass.inside = true →
        (s.workers i).pass.any Pass.inside = true) →
        ∀ x, s'.cleaning x = true → s.cleaning x = true := fun hi x hx => by
      cases x with
      | inl j =>
        rw [State.cleaning_inl] at hx ⊢
        by_cases hji : j = i
        · exact hji ▸ hi (hji ▸ hx)
        · rwa [← hother j hji]
      | inr j => rwa [State.cleaning_inr, ← hcleaners]
    generalize hold : s.workers i = w at hw
    generalize hnew : s'.workers i = w' at hw
    have hpassed : ∀ {job : Job} {p : Pass} {p' : Option Pass},
        PassTurn s.toShared s'.toShared p p' → w = .cleanup job p → w'.pass = p' →
        w'.locked = false → Locks s' := fun {job p p'} hp hw hw' hl => by
      refine h.passed (x := .inl i) hp ?_ ?_ (fun y hy => ?_) fun j hj => ?_
      · show (s.workers i).pass = _
        rw [hold, hw]
        rfl
      · show (s'.workers i).pass = _
        rw [hnew, hw']
      · cases y with
        | inl j =>
          show (s'.workers j).pass = _
          rw [hother j fun hj => hy (hj ▸ rfl)]
          rfl
        | inr j =>
          show (s'.cleaners j).pass = _
          rw [hcleaners]
          rfl
      · by_cases hji : j = i
        · rw [hji, hnew, hl] at hj
          cases hj
        · rwa [← hother j hji]
    rw [hold, hnew] at hclean_of
    rw [hnew] at hmu_of
    cases hw with
    | sectioned job _ hfree hshards hmu hc howes hw' =>
      rcases hw' with ⟨hl, -, hmu'⟩ | ⟨r, rfl⟩
      · refine h.same (hmu_of hmu fun _ => hmu') hc (hclean_of fun hp => ?_)
        rw [Worker.pass_of_locked hl] at hp
        exact hp
      · exact h.same (hmu_of hmu nofun) hc (hclean_of nofun)
    | held _ _ job hl hl' hjob hjob' hshards hmu hc howes =>
      refine h.same (hmu_of (fun j _ => congrFun hmu j) fun _ => ?_) hc (hclean_of fun hp => ?_)
      · rw [hmu]
        exact h.mu i (hold ▸ hl)
      · rw [Worker.pass_of_locked hl'] at hp
        cases hp
    | freed _ _ job hl hjob hw' hshards hmu hc =>
      have hmu' : ∀ j, j ≠ i → s'.mu j = s.mu j := fun j hj => by
        rw [hmu, Function.update_of_ne hj]
      rcases hw' with ⟨r, rfl⟩ | rfl
      · exact h.same (hmu_of hmu' nofun) hc (hclean_of nofun)
      · exact h.same (hmu_of hmu' nofun) hc (hclean_of nofun)
    | inserted job r shard hshards hmu hc =>
      have hmu' : ∀ j, j ≠ i → s'.mu j = s.mu j := fun j hj => by
        rw [hmu, Function.update_of_ne hj]
      exact h.same (hmu_of hmu' nofun) hc (hclean_of nofun)
    | passed job p p' hp | cleaned job p hp => exact hpassed hp rfl rfl rfl
  | cleaner j p p' hc hc' hp hworkers hother =>
    refine h.passed (x := .inr j) hp ?_ ?_ (fun y hy => ?_) (fun i hi => ?_)
    · show (s.cleaners j).pass = _
      rw [hc]; rfl
    · show (s'.cleaners j).pass = _
      rw [hc']
      cases p' <;> rfl
    · cases y with
      | inl i => show (s'.workers i).pass = _; rw [hworkers]; rfl
      | inr l =>
        show (s'.cleaners l).pass = _
        rw [hother l fun hl => hy (hl ▸ rfl)]
        rfl
    · rwa [← hworkers]

/-! ## What a step does to its thread -/

/-- A worker that does not move stays, or goes about its queue. -/
theorem Turn.worker_still (ht : Turn cfg s s' a) {i : Fin n} (hi : a.mover ≠ some (.inl i)) :
    s'.workers i = s.workers i ∨ (s.workers i).aside = true ∧ (s'.workers i).aside = true := by
  cases ht with
  | quiet _ ha hshards hmu hc hworkers hcleaners => exact hworkers i
  | worker j pool hw hother hcleaners => exact Or.inl (hother i fun hij => hi (hij ▸ rfl))
  | cleaner j p p' hc hc' hp hworkers hother => exact Or.inl (congrFun hworkers i)

theorem Turn.owes_still (ht : Turn cfg s s' a) {x : Thread n m} (hx : a.mover ≠ some x) :
    s'.owes x = s.owes x := by
  cases x with
  | inl i =>
    show (s'.workers i).owes = (s.workers i).owes
    rcases ht.worker_still hx with hw | ⟨hw, hw'⟩
    · rw [hw]
    · rw [(Worker.aside_facts hw).2.2, (Worker.aside_facts hw').2.2]
  | inr j =>
    show (s'.cleaners j).debt = (s.cleaners j).debt
    cases ht with
    | quiet _ ha hshards hmu hc hworkers hcleaners =>
      rcases hcleaners j with hcl | ⟨hcl, hcl'⟩
      · rw [hcl]
      · rw [(Cleaner.aside_facts hcl).2, (Cleaner.aside_facts hcl').2]
    | worker i pool hw hother hcleaners => rw [hcleaners]
    | cleaner l p p' hc hc' hp hworkers hother => rw [hother j fun hj => hx (hj ▸ rfl)]

/-- Whoever owes something holds the lock of a shard or `cleanupMu`. -/
theorem State.owes_cases {x : Thread n m} (h : s.owes x ≠ 0) :
    (∃ i, x = .inl i ∧ (s.workers i).locked = true) ∨ s.cleaning x = true := by
  have hpass : ∀ {p : Pass}, p.debt ≠ 0 → p.inside = true := fun {p} hp => by
    cases p <;> first | rfl | exact absurd rfl hp
  cases x with
  | inl i =>
    rw [State.cleaning_inl]
    change (s.workers i).owes ≠ 0 at h
    cases hw : s.workers i with
    | releaseLoad job response | releaseSwap job response current =>
      exact Or.inl ⟨i, rfl, by rw [hw]; rfl⟩
    | cleanup job pass =>
      rw [hw] at h
      exact Or.inr (hpass h)
    | _ => rw [hw] at h; exact absurd rfl h
  | inr j =>
    rw [State.cleaning_inr]
    change (s.cleaners j).debt ≠ 0 at h
    cases hc : s.cleaners j with
    | running pass =>
      rw [hc] at h
      exact Or.inr (hpass h)
    | _ => rw [hc] at h; exact absurd rfl h

end Turns

end RedLease.Server
