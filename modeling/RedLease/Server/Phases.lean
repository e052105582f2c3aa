import RedLease.Server.Lifecycle

/-!
# Phases and their effects

A server goes through its phases in one direction, reports at most one error, and lets an operation
change something only when the worker that applies it has seen the phase `active`.

Three invariants, each preserved by every step of `Life`:
* `FailInv`: what `failOnce` protects. One call of `fail` is inside, it has set the phase or not, and
  the error is sent by it alone.
* `Gate`: no operation reaches a shard before the quarantine is over, and a worker past the check has
  seen `active`.
* `Untouched`, until `runQuarantine` has activated the server.

**`server_life_orderly`** collects what they give for every run.
-/

namespace RedLease.Server

open Lib LeaseShard

/-- The order of the phases. -/
def Phase.rank : Phase → Nat
  | .quarantine => 0
  | .active => 1
  | .failed => 2
  | .closed => 3

theorem Phase.rank_le_closed (p : Phase) : p.rank ≤ Phase.closed.rank := by
  cases p <;> decide

/-- The worker has an operation that has passed the check of `active`. -/
def Worker.past : Worker → Bool
  | .idle | .dequeued _ => false
  | _ => true

/-- How far a call of `fail` is inside `failOnce`: not at all, before it has set the phase, after. -/
def FailCall.stage : FailCall → Nat
  | .load | .swap _ => 1
  | .cancel | .lock | .closing _ | .send => 2
  | _ => 0

/-- The worker that takes a step on the operation it has. -/
def System.Event.worker {n m : Nat} : System.Event n m → Option (Fin n)
  | .check i | .respond i | .server (.apply i _) | .server (.work i _) => some i
  | _ => none

/-- `runQuarantine` has tried to activate the server. -/
def Quarantine.over : Quarantine → Bool
  | .ended done => done
  | _ => false

namespace Life

variable {n m : Nat} {cfg : Config} {assign : Nat → Fin n} {fb : Accessors} {s s' : Life n m}

/-! ## What a step does to the system -/

theorem closeConn_eq (s : Life n m) (c : Nat) : ∃ sys, s.closeConn c = { s with sys } := by
  unfold closeConn
  split
  · exact ⟨_, rfl⟩
  · exact ⟨s.sys, rfl⟩

/-- What the history of the workers and the counters of `apply` say. -/
structure SameNotes (s s' : Life n m) : Prop where
  operationTotals : s'.operationTotals = s.operationTotals
  observed : s'.observed = s.observed
  dequeuedIn : s'.dequeuedIn = s.dequeuedIn
  accepted : s'.accepted = s.accepted
  finished : s'.finished = s.finished

/-- All that a step of the server's life can do to the system inside. -/
inductive SysStep (cfg : Config) (assign : Nat → Fin n) (fb : Accessors) (s s' : Life n m)
    (a : LifeAct n m) : Prop
  | worked (e : System.Event n m) (sys : System n m) (ha : a = .sys e) (hm : s.mayWork e = true)
      (hs : s.sys.step cfg assign fb e = some sys) (h : s' = s.worked assign e sys)
  | phase (p : Phase) (hp : s.phase.rank ≤ p.rank) (hsys : s'.sys = s.sys.withPhase p)
      (hphases : s'.phases = s.phases ++ [p]) (hnotes : SameNotes s s')
      (hq : s'.quarantine = s.quarantine ∧ p ≠ .active ∨ s'.quarantine.over = true)
  | session (c : Nat) (ss : Session)
      (hss : s.sys.sessions c = none ∧ ss = .start ∨
        ∃ ss₀, s.sys.sessions c = some ss₀ ∧ ss = { ss₀ with connClosed := true })
      (hsys : s'.sys = s.sys.setSession c ss) (hphases : s'.phases = s.phases)
      (hnotes : SameNotes s s') (hq : s'.quarantine = s.quarantine)
  | same (hsys : s'.sys = s.sys) (hphases : s'.phases = s.phases) (hnotes : SameNotes s s')
      (hq : s'.quarantine.over = false → s.quarantine.over = false)

theorem closeConn_sysStep {a : LifeAct n m} {c : Nat} {s₁ : Life n m}
    (hsys : s₁.sys = (s.closeConn c).sys) (hphases : s₁.phases = (s.closeConn c).phases)
    (hnotes : SameNotes (s.closeConn c) s₁)
    (hq : s₁.quarantine = (s.closeConn c).quarantine) : SysStep cfg assign fb s s₁ a := by
  unfold closeConn at hsys hphases hnotes hq
  split at hsys
  · rename_i ss hss
    simp only [hss] at hphases hnotes hq
    exact .session c _ (Or.inr ⟨ss, hss, rfl⟩) hsys hphases
      ⟨hnotes.1, hnotes.2, hnotes.3, hnotes.4, hnotes.5⟩ hq
  · rename_i hss
    simp only [hss] at hphases hnotes hq
    exact .same hsys hphases hnotes fun h => hq ▸ h

theorem sysStep_of_fail {a : LifeAct n m} {id : Nat} (hswap : ∀ p, s.fails id = .swap p → p ≠ .closed)
    (h : FailStep s id s') : SysStep cfg assign fb s s' a := by
  cases h with
  | swapped hc =>
    refine .phase .failed ?_ rfl rfl ⟨rfl, rfl, rfl, rfl, rfl⟩ (Or.inl ⟨rfl, nofun⟩)
    have hne := hswap _ hc
    revert hne
    cases s.phase <;> simp [Phase.rank]
  | closedConn c todo hc => exact closeConn_sysStep rfl rfl ⟨rfl, rfl, rfl, rfl, rfl⟩ rfl
  | _ => exact .same rfl rfl ⟨rfl, rfl, rfl, rfl, rfl⟩ fun h => h

theorem sysStep_of_close {a : LifeAct n m} {id : Nat} (h : CloseStep s id s') :
    SysStep cfg assign fb s s' a := by
  cases h with
  | stored hc =>
    exact .phase .closed (Phase.rank_le_closed _) rfl rfl ⟨rfl, rfl, rfl, rfl, rfl⟩
      (Or.inl ⟨rfl, nofun⟩)
  | closedConn c todo hc => exact closeConn_sysStep rfl rfl ⟨rfl, rfl, rfl, rfl, rfl⟩ rfl
  | _ => exact .same rfl rfl ⟨rfl, rfl, rfl, rfl, rfl⟩ fun h => h

theorem sysStep {a : LifeAct n m} (hswap : ∀ id p, s.fails id = .swap p → p ≠ .closed)
    (hs : step cfg assign fb s a = some s') : SysStep cfg assign fb s s' a := by
  cases step_cases hs with
  | worked e sys hm hsys => exact .worked e sys rfl hm hsys rfl
  | activated hq hp =>
    refine .phase .active ?_ rfl rfl ⟨rfl, rfl, rfl, rfl, rfl⟩ (Or.inr rfl)
    rw [hp]
    decide
  | fail id h => exact sysStep_of_fail (hswap id) h
  | close id h => exact sysStep_of_close h
  | ran c hc hss hp =>
    exact .session c .start (Or.inl ⟨hss, rfl⟩) rfl rfl ⟨rfl, rfl, rfl, rfl, rfl⟩ rfl
  | timer hq => exact .same rfl rfl ⟨rfl, rfl, rfl, rfl, rfl⟩ fun _ => by rw [hq]; rfl
  | overtaken hq hp => exact .same rfl rfl ⟨rfl, rfl, rfl, rfl, rfl⟩ nofun
  | contextEnds hq => exact .same rfl rfl ⟨rfl, rfl, rfl, rfl, rfl⟩ fun _ => by rw [hq]; rfl
  | _ => exact .same rfl rfl ⟨rfl, rfl, rfl, rfl, rfl⟩ fun h => h

/-! ## One failure -/

/-- What `failOnce` protects. -/
def OnceInv (s : Life n m) : Prop :=
  match s.failOnce with
  | .fresh => (∀ id, (s.fails id).stage = 0) ∧ s.sent = 0 ∧ Phase.failed ∉ s.phases
  | .running => s.sent = 0 ∧ ∃ id, (∀ id', id' ≠ id → (s.fails id').stage = 0) ∧
      ((s.fails id).stage = 1 ∧ Phase.failed ∉ s.phases ∨
        (s.fails id).stage = 2 ∧ Phase.failed ∈ s.phases)
  | .done => (∀ id, (s.fails id).stage = 0) ∧
      (s.sent = 1 ∧ Phase.failed ∈ s.phases ∨ s.sent = 0 ∧ Phase.failed ∉ s.phases)

/-- The phases go up, and `fail` sends one error at most. -/
structure FailInv (s : Life n m) : Prop where
  last : s.phases.getLast? = some s.phase
  below : ∀ p ∈ s.phases, p.rank ≤ s.phase.rank
  ordered : s.phases.Pairwise fun p q => p.rank ≤ q.rank
  /-- A compare-and-swap of `fail` does not start from `closed`. -/
  swap : ∀ id p, s.fails id = .swap p → p ≠ .closed
  fatal : s.fatal ≤ s.sent
  once : s.OnceInv

theorem failInv_init (clock : Time) : (init n m clock).FailInv where
  last := rfl
  below p hp := by
    rw [List.mem_singleton.mp hp]
    exact le_refl _
  ordered := List.pairwise_singleton _ _
  swap _ _ h := by cases h
  fatal := le_refl _
  once := ⟨fun _ => rfl, rfl, by simp [init]⟩

theorem OnceInv.congr (h : s.OnceInv) (ho : s'.failOnce = s.failOnce)
    (hf : ∀ id, (s'.fails id).stage = (s.fails id).stage) (hsent : s'.sent = s.sent)
    (hp : Phase.failed ∈ s'.phases ↔ Phase.failed ∈ s.phases) : s'.OnceInv := by
  unfold OnceInv at h ⊢
  rw [ho]
  simp only [hf, hsent, hp]
  exact h

/-- Who is inside `failOnce` is the only one. -/
theorem OnceInv.inside (h : s.OnceInv) {id : Nat} (hid : (s.fails id).stage ≠ 0) :
    s.failOnce = .running ∧ s.sent = 0 ∧ (∀ id', id' ≠ id → (s.fails id').stage = 0) ∧
      ((s.fails id).stage = 1 ∧ Phase.failed ∉ s.phases ∨
        (s.fails id).stage = 2 ∧ Phase.failed ∈ s.phases) := by
  unfold OnceInv at h
  split at h
  · exact absurd (h.1 id) hid
  · rename_i ho
    obtain ⟨hsent, id', hothers, hstage⟩ := h
    by_cases heq : id = id'
    · subst heq
      exact ⟨ho, hsent, hothers, hstage⟩
    · exact absurd (hothers id heq) hid
  · exact absurd (h.1 id) hid

/-- Every call is outside, after call `id` has left. -/
theorem stage_setFail {id : Nat} {call : FailCall} (hothers : ∀ id', id' ≠ id →
    (s.fails id').stage = 0) (hcall : call.stage = 0) (id' : Nat) :
    (Function.update s.fails id call id').stage = 0 := by
  by_cases heq : id' = id
  · rw [heq, Function.update_self]
    exact hcall
  · rw [Function.update_of_ne heq]
    exact hothers id' heq

/-- A call that stays where it is. -/
theorem stage_update {id : Nat} {call : FailCall} (h : call.stage = (s.fails id).stage) (id' : Nat) :
    (Function.update s.fails id call id').stage = (s.fails id').stage := by
  by_cases heq : id' = id
  · rw [heq, Function.update_self]
    exact h
  · rw [Function.update_of_ne heq]

theorem OnceInv.fail_step (h : s.OnceInv) {id : Nat} (hs : FailStep s id s') : s'.OnceInv := by
  cases hs with
  | entered hc ho =>
    unfold OnceInv at h
    rw [ho] at h
    obtain ⟨hnone, hsent, hphases⟩ := h
    refine ⟨hsent, id, fun id' hne => ?_, Or.inl ⟨?_, hphases⟩⟩
    · show (Function.update s.fails id .load id').stage = 0
      rw [Function.update_of_ne hne]
      exact hnone id'
    · show (Function.update s.fails id .load id).stage = 1
      rw [Function.update_self]
      rfl
  | closed hc hp =>
    obtain ⟨ho, hsent, hothers, hstage⟩ := h.inside (by rw [hc]; decide)
    rw [hc] at hstage
    rcases hstage with ⟨-, hphases⟩ | ⟨hstage, -⟩
    · exact ⟨stage_setFail hothers rfl, Or.inr ⟨hsent, hphases⟩⟩
    · cases hstage
  | swapped hc =>
    obtain ⟨ho, hsent, hothers, -⟩ := h.inside (by rw [hc]; exact Nat.one_ne_zero)
    have hgoal : ((s.setPhase .failed).setFail id .cancel).failOnce = .running := ho
    unfold OnceInv
    rw [hgoal]
    refine ⟨hsent, id, fun id' hne => ?_, Or.inr ⟨?_, List.mem_append_right _ (by decide)⟩⟩
    · show (Function.update s.fails id .cancel id').stage = 0
      rw [Function.update_of_ne hne]
      exact hothers id' hne
    · show (Function.update s.fails id .cancel id).stage = 2
      rw [Function.update_self]
      rfl
  | sent hc hroom =>
    obtain ⟨ho, hsent, hothers, hstage⟩ := h.inside (by rw [hc]; decide)
    rw [hc] at hstage
    rcases hstage with ⟨hstage, -⟩ | ⟨-, hphases⟩
    · cases hstage
    · refine ⟨stage_setFail hothers rfl, Or.inl ⟨?_, hphases⟩⟩
      show s.sent + 1 = 1
      rw [hsent]
  | closedConn c todo hc =>
    obtain ⟨sys, heq⟩ := s.closeConn_eq c
    rw [heq]
    exact h.congr rfl (stage_update (by rw [hc]; rfl)) rfl Iff.rfl
  | late hc ho | loaded hc hp | retried phase hc | cancelled hc | locked hc hmu | unlocked hc =>
    exact h.congr rfl (stage_update (by rw [hc]; rfl)) rfl Iff.rfl

/-- **The phase never goes back.** -/
theorem SysStep.rank_le {a : LifeAct n m} (h : SysStep cfg assign fb s s' a) :
    s.phase.rank ≤ s'.phase.rank := by
  unfold Life.phase
  cases h with
  | worked e sys ha hm hs h =>
    subst h
    exact le_refl _
  | phase p hp hsys hphases hnotes hq =>
    rw [hsys]
    exact hp
  | session c ss hss hsys hphases hnotes hq =>
    rw [hsys]
    exact le_refl _
  | same hsys hphases hnotes hq => rw [hsys]

/-- What the history of the phases says after a step. -/
theorem SysStep.phases {a : LifeAct n m} (h : SysStep cfg assign fb s s' a) :
    s'.phases = s.phases ∧ s'.phase = s.phase ∨ s'.phases = s.phases ++ [s'.phase] := by
  cases h with
  | worked e sys ha hm hs h =>
    subst h
    exact Or.inl ⟨rfl, rfl⟩
  | phase p hp hsys hphases hnotes hq =>
    refine Or.inr ?_
    unfold Life.phase
    rw [hphases, hsys]
    rfl
  | session c ss hss hsys hphases hnotes hq =>
    refine Or.inl ⟨hphases, ?_⟩
    unfold Life.phase
    rw [hsys]
    rfl
  | same hsys hphases hnotes hq =>
    refine Or.inl ⟨hphases, ?_⟩
    unfold Life.phase
    rw [hsys]

/-- A compare-and-swap of `fail` starts from the phase that was loaded. -/
theorem swap_of_step {a : LifeAct n m} (hs : step cfg assign fb s a = some s') {id : Nat} {p : Phase}
    (hid : s'.fails id = .swap p) : s.fails id = .swap p ∨ p = s.phase ∧ s.phase ≠ .closed := by
  have hother : ∀ {id' : Nat} {call : FailCall}, (∀ p, call ≠ .swap p) →
      Function.update s.fails id' call id = .swap p → s.fails id = .swap p := by
    intro id' call hcall h
    by_cases heq : id = id'
    · rw [heq, Function.update_self] at h
      exact absurd h (hcall p)
    · rwa [Function.update_of_ne heq] at h
  cases step_cases hs with
  | fail id' hf =>
    cases hf with
    | loaded hc hp =>
      have hid' : Function.update s.fails id' (.swap s.phase) id = .swap p := hid
      by_cases heq : id = id'
      · rw [heq, Function.update_self] at hid'
        cases hid'
        exact Or.inr ⟨rfl, hp⟩
      · rw [Function.update_of_ne heq] at hid'
        exact Or.inl hid'
    | closedConn c todo hc =>
      obtain ⟨sys, heq⟩ := s.closeConn_eq c
      rw [heq] at hid
      exact Or.inl (hother (by nofun) hid)
    | _ => exact Or.inl (hother (by nofun) hid)
  | callFail id' hc => exact Or.inl (hother (by nofun) hid)
  | close id' hc =>
    cases hc with
    | closedConn c todo hc =>
      obtain ⟨sys, heq⟩ := s.closeConn_eq c
      rw [heq] at hid
      exact Or.inl hid
    | _ => exact Or.inl hid
  | _ => exact Or.inl hid

theorem FailInv.after_step (h : s.FailInv) {a : LifeAct n m}
    (hs : step cfg assign fb s a = some s') : s'.FailInv := by
  have hsys := sysStep h.swap hs
  have hrank := hsys.rank_le
  constructor
  case last =>
    rcases hsys.phases with ⟨hphases, hphase⟩ | hphases
    · rw [hphases, hphase]
      exact h.last
    · rw [hphases, List.getLast?_concat]
  case below =>
    rcases hsys.phases with ⟨hphases, hphase⟩ | hphases
    · rw [hphases, hphase]
      exact h.below
    · intro p hp
      rw [hphases] at hp
      rcases List.mem_append.mp hp with hp | hp
      · exact (h.below p hp).trans hrank
      · rw [List.mem_singleton.mp hp]
  case ordered =>
    rcases hsys.phases with ⟨hphases, -⟩ | hphases
    · rw [hphases]
      exact h.ordered
    · rw [hphases]
      refine List.pairwise_append.mpr ⟨h.ordered, List.pairwise_singleton _ _, fun p hp q hq => ?_⟩
      rw [List.mem_singleton.mp hq]
      exact (h.below p hp).trans hrank
  case swap =>
    intro id p hid
    rcases swap_of_step hs hid with hid | ⟨rfl, hp⟩
    · exact h.swap id p hid
    · exact hp
  case fatal =>
    cases step_cases hs with
    | fail id hf =>
      cases hf with
      | sent hc hroom => exact Nat.succ_le_succ h.fatal
      | closedConn c todo hc =>
        obtain ⟨sys, heq⟩ := s.closeConn_eq c
        rw [heq]
        exact h.fatal
      | _ => exact h.fatal
    | close id hc =>
      cases hc with
      | closedConn c todo hc =>
        obtain ⟨sys, heq⟩ := s.closeConn_eq c
        rw [heq]
        exact h.fatal
      | _ => exact h.fatal
    | takeFatal hpos => exact (Nat.sub_le ..).trans h.fatal
    | _ => exact h.fatal
  case once =>
    have hnew : ∀ {p : Phase}, p ≠ .failed →
        (Phase.failed ∈ s.phases ++ [p] ↔ Phase.failed ∈ s.phases) := fun hp => by
      rw [List.mem_append, List.mem_singleton]
      exact or_iff_left (Ne.symm hp)
    cases step_cases hs with
    | fail id hf => exact h.once.fail_step hf
    | callFail id hc =>
      refine h.once.congr rfl (stage_update ?_) rfl Iff.rfl
      rcases hc with hc | hc
      · rw [hc]; rfl
      · rw [hc]; rfl
    | activated hq hp => exact h.once.congr rfl (fun _ => rfl) rfl (hnew nofun)
    | close id hc =>
      cases hc with
      | stored hc => exact h.once.congr rfl (fun _ => rfl) rfl (hnew nofun)
      | closedConn c todo hc =>
        obtain ⟨sys, heq⟩ := s.closeConn_eq c
        rw [heq]
        exact h.once.congr rfl (fun _ => rfl) rfl Iff.rfl
      | _ => exact h.once.congr rfl (fun _ => rfl) rfl Iff.rfl
    | _ => exact h.once.congr rfl (fun _ => rfl) rfl Iff.rfl

/-! ## Who changes what -/

end Life

/-- Which steps of the threads change the shards, the counter `keys` or a cleaner. -/
inductive StoreStep {n m : Nat} (t t' : State n m) (a : Act n m) : Prop
  | still (hshards : t'.shards = t.shards) (hkeys : t'.keys = t.keys)
      (hcleaners : t'.cleaners = t.cleaners)
  | worked (i : Fin n) (pool : PoolGet) (ha : a = .work i pool) (hw : (t.workers i).past = true)
      (hcleaners : t'.cleaners = t.cleaners)
  | swept (j : Fin m) (hc : t.cleaners j = .idle)
      (h : t' = t.setCleaner j (if t.phase = .active then .admitted else .idle))
  | started (j : Fin m) (now : Time) (hc : t.cleaners j = .admitted)
      (h : t' = t.setCleaner j (.running (.lock now)))
  | passed (j : Fin m) (pass : Pass) (ha : a = .pass j) (hc : t.cleaners j = .running pass)

theorem step_store {n m : Nat} {cfg : Config} {assign : Nat → Fin n} {t t' : State n m} {a : Act n m}
    (hs : Server.step cfg assign t a = some t') : StoreStep t t' a := by
  cases a with
  | tick now =>
    simp only [Server.step] at hs
    split_ifs at hs
    cases hs
    exact .still rfl rfl rfl
  | dequeue i op =>
    simp only [Server.step] at hs
    split at hs
    · split_ifs at hs
      cases hs
      exact .still rfl rfl rfl
    · cases hs
  | check i =>
    simp only [Server.step] at hs
    split at hs
    · cases hs
      exact .still rfl rfl rfl
    · cases hs
  | apply i now =>
    simp only [Server.step] at hs
    split at hs
    · split_ifs at hs
      cases hs
      exact .still rfl rfl rfl
    · cases hs
  | work i pool =>
    simp only [Server.step] at hs
    split at hs
    · rename_i sh w hw
      cases hs
      refine .worked i pool rfl ?_ rfl
      cases hi : t.workers i with
      | idle | dequeued op => rw [hi] at hw; cases hw
      | _ => rfl
    · cases hs
  | respond i =>
    simp only [Server.step] at hs
    split at hs
    · cases hs
      exact .still rfl rfl rfl
    · cases hs
  | sweep j =>
    simp only [Server.step] at hs
    split at hs
    · cases hs
      exact .swept j ‹_› rfl
    · cases hs
  | start j now =>
    simp only [Server.step] at hs
    split at hs
    · split_ifs at hs
      cases hs
      exact .started j now ‹_› rfl
    · cases hs
  | pass j =>
    simp only [Server.step] at hs
    split at hs
    · rename_i pass hc
      exact .passed j pass rfl hc
    · cases hs
  | activate =>
    simp only [Server.step] at hs
    split_ifs at hs
    cases hs
    exact .still rfl rfl rfl
  | close =>
    simp only [Server.step] at hs
    cases hs
    exact .still rfl rfl rfl

theorem WriterStep.reader_eq {phase : Phase} {ss ss' : Session} {choice : Choice}
    (h : WriterStep phase ss choice ss') : ss'.reader = ss.reader := by
  cases h <;> rfl

theorem ReaderStep.dispatch {cfg : Config} {fb : Accessors} {phase : Phase} {c : Nat}
    {ss ss' : Session} {op : Operation} (h : ReaderStep cfg fb phase c ss ss')
    (hr : ss'.reader = .dispatch op) : phase ≠ .quarantine := by
  cases h with
  | admitted op hop hp => exact hp
  | _ => cases hr

theorem Worker.past_of_job {w : Worker} {job : Job} (h : w.job = some job) : w.past = true := by
  cases w with
  | idle => cases h
  | dequeued op => cases h
  | _ => rfl

namespace System

variable {n m : Nat} {cfg : Config} {assign : Nat → Fin n} {fb : Accessors} {s s' : System n m}

/-- A reader gets to `dispatch` outside of the quarantine only. -/
theorem SessionStep.dispatch {phase : Phase} {c : Nat} {e : Event n m} {o : Option Session}
    {ss' : Session} {op : Operation} (h : SessionStep cfg fb phase c e o ss')
    (hr : ss'.reader = .dispatch op) :
    (∃ ss, o = some ss ∧ ss.reader = .dispatch op) ∨ phase ≠ .quarantine := by
  cases h with
  | accepted he hp => cases hr
  | received ss bytes he | hungUp ss he | closed ss he => exact Or.inl ⟨ss, rfl, hr⟩
  | reader ss ss' he h => exact Or.inr (h.dispatch hr)
  | writer ss ss' choice he h => exact Or.inl ⟨ss, rfl, h.reader_eq ▸ hr⟩

/-- The readers that are in `dispatch` after a step. -/
theorem dispatch_of_step {e : Event n m} (hs : step cfg assign fb s e = some s') {c : Nat}
    {ss' : Session} {op : Operation} (hc' : s'.sessions c = some ss')
    (hr : ss'.reader = .dispatch op) :
    (∃ ss, s.sessions c = some ss ∧ ss.reader = .dispatch op) ∨ s.server.phase ≠ .quarantine := by
  -- a session that changes in the step and keeps its reader
  have hkeep : ∀ {c₀ : Nat} {ss₀ : Session} {q : List Response} {k : Nat},
      s.sessions c₀ = some ss₀ →
      Function.update s.sessions c₀ (some { ss₀ with respQueue := q, pending := k }) c = some ss' →
      ∃ ss, s.sessions c = some ss ∧ ss.reader = .dispatch op := by
    intro c₀ ss₀ q k hc₀ h
    rcases Family.update_eq_some h with ⟨rfl, rfl⟩ | ⟨-, h⟩
    · exact ⟨ss₀, hc₀, hr⟩
    · exact ⟨ss', h, hr⟩
  cases step_cases hs with
  | threads a server he ha hstep | dequeued i op rest server he hq hstep | checked i op he hw hp =>
    exact Or.inl ⟨ss', hc', hr⟩
  | dropped i op he hw hp =>
    unfold donePending at hc'
    split at hc'
    · exact Or.inl (hkeep ‹_› hc')
    · exact Or.inl ⟨ss', hc', hr⟩
  | responded i job r ss he hw hc hroom | unanswered i job r ss he hw hc hd =>
    exact Or.inl (hkeep hc hc')
  | session c₀ ss₀ server hstep hserver =>
    rcases Family.update_eq_some hc' with ⟨rfl, rfl⟩ | ⟨-, h⟩
    · exact hstep.dispatch hr
    · exact Or.inl ⟨ss', h, hr⟩
  | dispatched c₀ ss op he hc hr₀ hroom | withdrawn c₀ ss op he hc hr₀ hfull hd =>
    rcases Family.update_eq_some hc' with ⟨rfl, rfl⟩ | ⟨-, h⟩
    · cases hr
    · exact Or.inl ⟨ss', h, hr⟩

/-- What the worker of shard `i` is doing after a step. -/
inductive WorkerMove (s s' : System n m) (e : Event n m) (i : Fin n) : Prop
  | still (hw : s'.server.workers i = s.server.workers i) (hd : e ≠ .dequeue i) (hc : e ≠ .check i)
  | dequeued (op : Operation) (he : e = .dequeue i) (hop : op ∈ s.inShard i)
      (hw : s'.server.workers i = .dequeued op)
  | checked (op : Operation) (he : e = .check i) (hw : s.server.workers i = .dequeued op)
      (hp : s.server.phase = .active) (hw' : s'.server.workers i = .admitted op)
  | applying (hw : (s.server.workers i).past = true) (hw' : (s'.server.workers i).past = true)
      (hd : e ≠ .dequeue i) (hc : e ≠ .check i)
  | finished (hw : s'.server.workers i = .idle) (hd : e ≠ .dequeue i)

theorem workerMove {e : Event n m} (hs : step cfg assign fb s e = some s') (i : Fin n) :
    WorkerMove s s' e i := by
  have hself : ∀ {w : Worker}, (s.server.setWorker i w).workers i = w := Function.update_self ..
  have hother : ∀ {j : Fin n} {w : Worker}, i ≠ j →
      (s.server.setWorker j w).workers i = s.server.workers i := fun h => Function.update_of_ne h ..
  cases step_cases hs with
  | threads a server he ha hstep =>
    subst he
    cases step_worker hstep i with
    | still hw => exact .still hw nofun nofun
    | moved pool hwork h =>
      obtain ⟨job, job', hj, hj', -⟩ := (Worker.step_turn h).job
      exact .applying (Worker.past_of_job hj) (Worker.past_of_job hj') nofun nofun
    | dequeued op hw hw' hd => subst hd; cases ha
    | dropped op hw hw' hphase hc | admitted op hw hw' hactive hc => subst hc; cases ha
    | applied op now hw hn hw' =>
      refine .applying ?_ ?_ nofun nofun
      · rw [hw]; rfl
      · rw [setServer_server, hw']; rfl
    | responded job r hw hw' hr => subst hr; cases ha
  | dequeued j op rest server he hq hstep =>
    subst he
    obtain ⟨hw, -, rfl⟩ := dequeue_cases hstep
    by_cases hij : i = j
    · subst hij
      exact .dequeued op rfl (List.mem_append_right _ (hq ▸ List.mem_cons_self)) hself
    · exact .still (hother hij) (fun h => hij (Event.dequeue.inj h).symm) nofun
  | checked j op he hw hp =>
    subst he
    by_cases hij : i = j
    · subst hij
      exact .checked op rfl hw hp hself
    · exact .still (hother hij) nofun (fun h => hij (Event.check.inj h).symm)
  | dropped j op he hw hp =>
    subst he
    have hserver := donePending_server (s.setServer (s.server.setWorker j .idle)) op.session
    by_cases hij : i = j
    · subst hij
      exact .finished (by rw [hserver]; exact hself) nofun
    · exact .still (by rw [hserver]; exact hother hij) nofun
        (fun h => hij (Event.check.inj h).symm)
  | responded j job r ss he hw hc hroom | unanswered j job r ss he hw hc hd =>
    subst he
    by_cases hij : i = j
    · subst hij
      exact .finished hself nofun
    · exact .still (hother hij) nofun nofun
  | session c ss' server hstep hserver =>
    have hworkers : server.workers = s.server.workers := by
      rcases hserver with rfl | rfl <;> rfl
    refine .still (congrFun hworkers i) ?_ ?_
    · rintro rfl
      generalize s.sessions c = o at hstep
      cases hstep <;> contradiction
    · rintro rfl
      generalize s.sessions c = o at hstep
      cases hstep <;> contradiction
  | dispatched c ss op he hc hr hroom | withdrawn c ss op he hc hr hfull hd =>
    subst he
    exact .still rfl nofun nofun

/-- Nothing is in a shard or on its way to one during the quarantine. -/
structure Gate (s : System n m) : Prop where
  queued : s.server.phase = .quarantine → ∀ i, s.inShard i = []
  dispatching : s.server.phase = .quarantine → ∀ c ss op, s.sessions c = some ss →
    ss.reader ≠ .dispatch op

/-- A step that leaves the workers and their queues alone, and dispatches nothing. -/
theorem Gate.keep (h : s.Gate)
    (hp : s'.server.phase = .quarantine → s.server.phase = .quarantine)
    (hw : s'.server.workers = s.server.workers) (hq : s'.queues = s.queues)
    (hr : ∀ c ss' op, s'.sessions c = some ss' → ss'.reader = .dispatch op →
      ∃ ss, s.sessions c = some ss ∧ ss.reader = .dispatch op) : s'.Gate where
  queued hp' i := by
    unfold inShard
    rw [hw, hq]
    exact h.queued (hp hp') i
  dispatching hp' c ss' op hc hop := by
    obtain ⟨ss, hss, hop'⟩ := hr c ss' op hc hop
    exact h.dispatching (hp hp') c ss op hss hop'

theorem dispatched_eq_none (s : System n m) (e : Event n m)
    (h : ∀ c ss op, s.sessions c = some ss → ss.reader ≠ .dispatch op) (i : Fin n) :
    s.dispatched assign e i = none := by
  unfold dispatched
  split
  · rename_i c
    split
    · rename_i op hop
      obtain ⟨ss, hss, hr⟩ := Option.map_eq_some_iff.mp hop
      exact absurd hr (h c ss op hss)
    · rfl
  · rfl

/-- A step in the quarantine. -/
theorem Gate.shut (h : s.Gate) (hp : s.server.phase = .quarantine) {e : Event n m}
    (hs : step cfg assign fb s e = some s') :
    (∀ i, s'.inShard i = []) ∧ ∀ c ss op, s'.sessions c = some ss → ss.reader ≠ .dispatch op := by
  refine ⟨fun i => ?_, fun c ss' op hc hr => ?_⟩
  · have hflow := flow hs i
    rw [h.queued hp i, dispatched_eq_none s e (h.dispatching hp) i] at hflow
    exact (List.append_eq_nil_iff.mp hflow.symm).2
  · rcases dispatch_of_step hs hc hr with ⟨ss, hss, hr'⟩ | hne
    · exact h.dispatching hp c ss op hss hr'
    · exact hne hp

end System

namespace Life

variable {n m : Nat} {cfg : Config} {assign : Nat → Fin n} {fb : Accessors} {s s' : Life n m}

/-! ## The gate -/

/-- Which operations get past the phase. -/
structure Gate (s : Life n m) : Prop extends s.sys.Gate where
  /-- A worker past the check has seen `active`, and took the operation in that phase. -/
  past : ∀ i, (s.sys.server.workers i).past = true →
    s.observed i = some .active ∧ s.dequeuedIn i = .active
  /-- A worker that took an operation in another phase will not see `active`. -/
  late : ∀ i op, s.sys.server.workers i = .dequeued op → s.dequeuedIn i ≠ .active →
    Phase.failed.rank ≤ s.phase.rank

theorem gate_init (clock : Time) : (init n m clock).Gate where
  queued _ _ := rfl
  dispatching _ _ _ _ h := by cases h
  past _ h := by cases h
  late _ _ h := by cases h

/-- A step that leaves the workers and their notes alone, and what is on its way to them if the
server stays in quarantine. -/
theorem Gate.keep (h : s.Gate) (hnotes : SameNotes s s') (hp : s.phase.rank ≤ s'.phase.rank)
    (hw : s'.sys.server.workers = s.sys.server.workers) (hq : s'.sys.queues = s.sys.queues)
    (hr : ∀ c ss' op, s'.sys.sessions c = some ss' → ss'.reader = .dispatch op →
      ∃ ss, s.sys.sessions c = some ss ∧ ss.reader = .dispatch op) : s'.Gate where
  toGate := by
    refine h.toGate.keep (fun hp' => ?_) hw hq hr
    unfold phase at hp
    rw [hp'] at hp
    revert hp
    cases s.sys.server.phase <;> decide
  past i hi := by
    rw [hw] at hi
    rw [hnotes.observed, hnotes.dequeuedIn]
    exact h.past i hi
  late i op hi hd := by
    rw [hw] at hi
    rw [hnotes.dequeuedIn] at hd
    exact (h.late i op hi hd).trans hp

theorem observe_of_ne {e : System.Event n m} {i : Fin n} (hd : e ≠ .dequeue i) (hc : e ≠ .check i) :
    s.observe e i = s.observed i := by
  unfold observe
  split
  · rename_i j
    exact Function.update_of_ne (fun h : i = j => hd (congrArg _ h.symm)) ..
  · rename_i j
    exact Function.update_of_ne (fun h : i = j => hc (congrArg _ h.symm)) ..
  · rfl

theorem noteDequeue_of_ne {e : System.Event n m} {i : Fin n} (hd : e ≠ .dequeue i) :
    s.noteDequeue e i = s.dequeuedIn i := by
  unfold noteDequeue
  split
  · rename_i j
    exact Function.update_of_ne (fun h : i = j => hd (congrArg _ h.symm)) ..
  · rfl

theorem Gate.work (h : s.Gate) {e : System.Event n m} {sys : System n m}
    (hs : s.sys.step cfg assign fb e = some sys) : (s.worked assign e sys).Gate where
  queued hp := (h.shut hp hs).1
  dispatching hp := (h.shut hp hs).2
  past i hi := by
    show s.observe e i = some .active ∧ s.noteDequeue e i = .active
    have hi' : (sys.server.workers i).past = true := hi
    cases System.workerMove hs i with
    | still hw hd hc =>
      rw [observe_of_ne hd hc, noteDequeue_of_ne hd]
      exact h.past i (hw ▸ hi')
    | dequeued op he hop hw => rw [hw] at hi'; cases hi'
    | checked op he hw hp hw' =>
      subst he
      refine ⟨?_, ?_⟩
      · show Function.update s.observed i (some s.phase) i = some .active
        rw [Function.update_self]
        exact congrArg some hp
      · show s.dequeuedIn i = .active
        by_contra hne
        have hrank := h.late i op hw hne
        unfold phase at hrank
        rw [hp] at hrank
        exact absurd hrank (by decide)
    | applying hw hw' hd hc =>
      rw [observe_of_ne hd hc, noteDequeue_of_ne hd]
      exact h.past i hw
    | finished hw hd => rw [hw] at hi'; cases hi'
  late i op hi hd := by
    show Phase.failed.rank ≤ s.phase.rank
    have hd' : s.noteDequeue e i ≠ .active := hd
    have hi' : sys.server.workers i = .dequeued op := hi
    cases System.workerMove hs i with
    | still hw hd hc =>
      rw [noteDequeue_of_ne hd] at hd'
      exact h.late i op (hw ▸ hi') hd'
    | dequeued op' he hop hw =>
      subst he
      have hnote : s.noteDequeue (.dequeue i) i = s.phase := Function.update_self ..
      rw [hnote] at hd'
      have hq : s.phase ≠ .quarantine := fun hp => by
        rw [h.queued hp i] at hop
        cases hop
      revert hd' hq
      cases s.phase <;> simp [Phase.rank]
    | checked op he hw hp hw' => rw [hw'] at hi'; cases hi'
    | applying hw hw' hd hc => rw [hi'] at hw'; cases hw'
    | finished hw hd => rw [hw] at hi'; cases hi'

/-- **A gate for every operation**: every step keeps it. -/
theorem Gate.after_step (h : s.Gate) (hf : s.FailInv) {a : LifeAct n m}
    (hs : step cfg assign fb s a = some s') : s'.Gate := by
  have hrank := (sysStep hf.swap hs).rank_le
  cases sysStep hf.swap hs with
  | worked e sys ha hm hstep heq =>
    subst heq
    exact h.work hstep
  | phase p hp hsys hphases hnotes hq =>
    refine h.keep hnotes hrank ?_ ?_ fun c ss' op hc hr => ⟨ss', ?_, hr⟩
    · rw [hsys]; rfl
    · rw [hsys]; rfl
    · rw [hsys] at hc; exact hc
  | session c ss hss hsys hphases hnotes hq =>
    refine h.keep hnotes hrank ?_ ?_ fun c' ss' op hc hr => ?_
    · rw [hsys]; rfl
    · rw [hsys]; rfl
    · rw [hsys, System.setSession_sessions] at hc
      rcases Family.update_eq_some hc with ⟨rfl, rfl⟩ | ⟨-, hc⟩
      · rcases hss with ⟨-, rfl⟩ | ⟨ss₀, hss₀, rfl⟩
        · cases hr
        · exact ⟨ss₀, hss₀, hr⟩
      · exact ⟨ss', hc, hr⟩
  | same hsys hphases hnotes hq =>
    refine h.keep hnotes hrank ?_ ?_ fun c ss' op hc hr => ⟨ss', ?_, hr⟩
    · rw [hsys]
    · rw [hsys]
    · rw [hsys] at hc; exact hc

/-! ## Before the timer -/

/-- Nothing has been stored or counted, and nobody is about to. -/
structure Untouched (s : Life n m) : Prop where
  shards : ∀ i, s.sys.server.shards i = LeaseShard.empty
  keys : s.sys.server.keys = 0
  totals : ∀ kind, s.operationTotals kind = 0
  workers : ∀ i, (s.sys.server.workers i).past = false
  cleaners : ∀ j, s.sys.server.cleaners j = .idle

/-- Until `runQuarantine` is through with its timer, the server is not active and untouched. -/
structure Guarded (s : Life n m) : Prop where
  phase : s.quarantine.over = false → s.phase ≠ .active
  untouched : s.quarantine.over = false → s.Untouched

theorem guarded_init (clock : Time) : (init n m clock).Guarded where
  phase _ := nofun
  untouched _ := ⟨fun _ => rfl, rfl, fun _ => rfl, fun _ => rfl, fun _ => rfl⟩

/-- What a step of the work can have changed in the shards, in `keys` and in the totals. -/
inductive Touch (s : Life n m) (e : System.Event n m) (s' : Life n m) : Prop
  | nothing (hshards : s'.sys.server.shards = s.sys.server.shards)
      (hkeys : s'.sys.server.keys = s.sys.server.keys)
      (htotals : s'.operationTotals = s.operationTotals)
  | operation (i : Fin n) (he : (∃ pool, e = .server (.work i pool)) ∨ ∃ now, e = .server (.apply i now))
      (hw : (s.sys.server.workers i).past = true)
  | pass (j : Fin m) (pass : Pass) (he : e = .server (.pass j))
      (hc : s.sys.server.cleaners j = .running pass)

theorem fail_store (sh : Shared n) : sh.fail.shards = sh.shards ∧ sh.fail.keys = sh.keys := by
  unfold Shared.fail
  split_ifs
  · exact ⟨rfl, rfl⟩
  · exact ⟨rfl, rfl⟩

/-- Only `apply` counts, for a worker that is past the check. -/
theorem countOperation_cases (s : Life n m) (e : System.Event n m) :
    s.countOperation e = s.operationTotals ∨
      ∃ i now, e = .server (.apply i now) ∧ (s.sys.server.workers i).past = true := by
  unfold countOperation
  split
  · rename_i i now
    split
    · rename_i op hw
      exact Or.inr ⟨i, now, rfl, by rw [hw]; rfl⟩
    · exact Or.inl rfl
  · exact Or.inl rfl

theorem touch {e : System.Event n m} {sys : System n m}
    (hs : s.sys.step cfg assign fb e = some sys) : Touch s e (s.worked assign e sys) := by
  rcases s.countOperation_cases e with htotals | ⟨i, now, he, hw⟩
  case inr => exact .operation i (Or.inr ⟨now, he⟩) hw
  cases System.step_cases hs with
  | threads a server he ha hstep =>
    cases step_store hstep with
    | worked i pool ha hw hcleaners => exact .operation i (Or.inl ⟨pool, ha ▸ he⟩) hw
    | passed j pass ha hc => exact .pass j pass (ha ▸ he) hc
    | swept j hc h | started j now hc h => exact .nothing (by rw [h]; rfl) (by rw [h]; rfl) htotals
    | still hshards hkeys hcleaners => exact .nothing hshards hkeys htotals
  | dequeued i op rest server he hq hstep =>
    obtain ⟨-, -, rfl⟩ := System.dequeue_cases hstep
    exact .nothing rfl rfl htotals
  | dropped i op he hw hp =>
    have hserver := System.donePending_server (s.sys.setServer (s.sys.server.setWorker i .idle))
      op.session
    have hshards := congrArg (fun t : State n m => t.shards) hserver
    have hkeys := congrArg (fun t : State n m => t.keys) hserver
    exact .nothing hshards hkeys htotals
  | session c ss' server hstep hserver =>
    rcases hserver with rfl | rfl
    · exact .nothing rfl rfl htotals
    · have hfail := fail_store s.sys.server.toShared
      exact .nothing hfail.1 hfail.2 htotals
  | _ => exact .nothing rfl rfl htotals

/-- Before the server is active no cleaner leaves its first check. -/
theorem cleaners_idle {e : System.Event n m} {sys sys' : System n m}
    (hs : sys.step cfg assign fb e = some sys') (hp : sys.server.phase ≠ .active)
    (hc : ∀ j, sys.server.cleaners j = .idle) (j : Fin m) : sys'.server.cleaners j = .idle := by
  cases System.step_cases hs with
  | threads a server he ha hstep =>
    show server.cleaners j = .idle
    cases step_store hstep with
    | still hshards hkeys hcleaners | worked i pool ha hw hcleaners => rw [hcleaners]; exact hc j
    | passed j' pass ha hj | started j' now hj h => rw [hc j'] at hj; cases hj
    | swept j' hj h =>
      rw [h, if_neg hp, State.setCleaner]
      show Function.update sys.server.cleaners j' .idle j = .idle
      rw [← hj, Function.update_eq_self]
      exact (hc j).trans hj.symm
  | dequeued i op rest server he hq hstep =>
    obtain ⟨-, -, rfl⟩ := System.dequeue_cases hstep
    exact hc j
  | dropped i op he hw hp =>
    rw [System.donePending_server]
    exact hc j
  | session c ss' server hstep hserver =>
    rcases hserver with rfl | rfl
    · exact hc j
    · exact hc j
  | _ => exact hc j

theorem Untouched.work (h : s.Untouched) (hp : s.phase ≠ .active) {e : System.Event n m}
    {sys : System n m} (hs : s.sys.step cfg assign fb e = some sys) :
    (s.worked assign e sys).Untouched := by
  have hworkers : ∀ i, (sys.server.workers i).past = false := fun i => by
    cases System.workerMove hs i with
    | still hw hd hc => rw [hw]; exact h.workers i
    | dequeued op he hop hw => rw [hw]; rfl
    | checked op he hw hp' hw' => exact absurd hp' hp
    | applying hw hw' hd hc => rw [h.workers i] at hw; cases hw
    | finished hw hd => rw [hw]; rfl
  have hcleaners := cleaners_idle hs hp h.cleaners
  cases touch hs with
  | nothing hshards hkeys htotals =>
    refine ⟨fun i => ?_, ?_, fun kind => ?_, hworkers, hcleaners⟩
    · rw [hshards]
      exact h.shards i
    · rw [hkeys]
      exact h.keys
    · rw [htotals]
      exact h.totals kind
  | operation i he hw => rw [h.workers i] at hw; cases hw
  | pass j pass he hc => rw [h.cleaners j] at hc; cases hc

/-- The server's own threads are as they were. -/
theorem Untouched.congr (h : s.Untouched) (hnotes : SameNotes s s')
    (hserver : s'.sys.server = { s.sys.server with phase := s'.phase }) : s'.Untouched where
  shards i := by rw [hserver]; exact h.shards i
  keys := by rw [hserver]; exact h.keys
  totals kind := by rw [hnotes.operationTotals]; exact h.totals kind
  workers i := by rw [hserver]; exact h.workers i
  cleaners j := by rw [hserver]; exact h.cleaners j

/-- **Nothing happens before the timer.** -/
theorem Guarded.after_step (h : s.Guarded) (hf : s.FailInv) {a : LifeAct n m}
    (hs : step cfg assign fb s a = some s') : s'.Guarded := by
  cases sysStep hf.swap hs with
  | worked e sys ha hm hstep heq =>
    subst heq
    exact ⟨h.phase, fun hq => (h.untouched hq).work (h.phase hq) hstep⟩
  | phase p hp hsys hphases hnotes hq =>
    have hphase : s'.phase = p := by
      unfold Life.phase
      rw [hsys]
      rfl
    rcases hq with ⟨hq, hne⟩ | hover
    · refine ⟨fun _ => hphase ▸ hne, fun hq' => ?_⟩
      refine (h.untouched (hq ▸ hq')).congr hnotes ?_
      rw [hphase, hsys]
      rfl
    · have hnot : s'.quarantine.over ≠ false := by rw [hover]; nofun
      exact ⟨fun hq => absurd hq hnot, fun hq => absurd hq hnot⟩
  | session c ss hss hsys hphases hnotes hq =>
    have hphase : s'.phase = s.phase := by
      unfold Life.phase
      rw [hsys]
      rfl
    refine ⟨fun hq' => hphase ▸ h.phase (hq ▸ hq'), fun hq' => ?_⟩
    refine (h.untouched (hq ▸ hq')).congr hnotes ?_
    rw [hphase, hsys]
    rfl
  | same hsys hphases hnotes hq =>
    have hphase : s'.phase = s.phase := by
      unfold Life.phase
      rw [hsys]
    refine ⟨fun hq' => hphase ▸ h.phase (hq hq'), fun hq' => ?_⟩
    refine (h.untouched (hq hq')).congr hnotes ?_
    rw [hphase, hsys]
    rfl

/-! ## The life of a server -/

/-- What client operations change: the shards with their maps and heaps, the counter `keys`, and the
operation totals. -/
def effects (s : Life n m) : (Fin n → LeaseShard) × Nat × (OperationKind → Nat) :=
  (s.sys.server.shards, s.sys.server.keys, s.operationTotals)

/-- The responses that wait for the writer of connection `c`. -/
def responses (s : Life n m) (c : Nat) : Option (List Response) :=
  (s.sys.sessions c).map Session.respQueue

/-- The order of a server's life, as seen in a state `s` of it. -/
structure Orderly (cfg : Config) (assign : Nat → Fin n) (fb : Accessors) (s : Life n m) : Prop where
  /-- The phases so far were in order, and the present one is the last of them. -/
  past : s.phases.Pairwise (fun p q => p.rank ≤ q.rank) ∧ s.phases.getLast? = some s.phase
  /-- However it goes on, the phase does not go back, and a closed server stays closed. -/
  future : ∀ acts s', Trans.exec (step cfg assign fb) s acts = some s' →
    s.phase.rank ≤ s'.phase.rank ∧ (s.phase = .closed → s'.phase = .closed)
  /-- At most one error is sent, and who sends it does not have to wait. -/
  sent : s.sent ≤ 1 ∧ ∀ id, s.fails id = .send → ∃ s', step cfg assign fb s (.fail id) = some s'
  /-- When all calls of `fail` have returned, an error was sent if the server had failed. -/
  reported : (∀ id, s.fails id = .idle ∨ s.fails id = .returned) →
    (s.sent = 1 ↔ Phase.failed ∈ s.phases)
  /-- Apart from a background pass, only a worker that took its operation in the phase `active` and
  saw `active` for it changes anything. -/
  gated : ∀ a s', step cfg assign fb s a = some s' → s'.effects = s.effects ∨
    (∃ j, a = .sys (.server (.pass j))) ∨
    ∃ e i, a = .sys e ∧ e.worker = some i ∧ s.observed i = some .active ∧ s.dequeuedIn i = .active
  /-- Before the timer of the quarantine has fired nothing is stored, counted or being applied. -/
  guarded : s.quarantine = .waiting ∨ s.quarantine = .ended false → s.Untouched
  /-- An operation that was taken from the queue in another phase is dropped: its worker goes back
  to its queue, nothing changes, and nobody gets a response. -/
  dropped : ∀ e i s', e.worker = some i → s.dequeuedIn i ≠ .active →
    step cfg assign fb s (.sys e) = some s' →
    s'.sys.server.workers i = .idle ∧ s'.effects = s.effects ∧ s'.responses = s.responses

/-- The three invariants of a run. -/
structure LifeInv (s : Life n m) : Prop where
  fail : s.FailInv
  gate : s.Gate
  guarded : s.Guarded

theorem lifeInv_of_exec {clock : Time} {acts : List (LifeAct n m)}
    (h : Trans.exec (step cfg assign fb) (init n m clock) acts = some s) : s.LifeInv :=
  Trans.exec_invariant
    (fun hi hs => ⟨hi.fail.after_step hs, hi.gate.after_step hi.fail hs,
      hi.guarded.after_step hi.fail hs⟩)
    ⟨failInv_init clock, gate_init clock, guarded_init clock⟩ h

/-- **The phase goes forward along every run.** -/
theorem FailInv.forward (h : s.FailInv) {acts : List (LifeAct n m)}
    (hrun : Trans.exec (step cfg assign fb) s acts = some s') : s.phase.rank ≤ s'.phase.rank := by
  induction acts generalizing s with
  | nil =>
    cases hrun
    exact le_refl _
  | cons a rest ih =>
    obtain ⟨s₁, hs, hrest⟩ := Trans.exec_cons.mp hrun
    exact (sysStep h.swap hs).rank_le.trans (ih (h.after_step hs) hrest)

theorem closed_of_rank {p : Phase} (h : Phase.closed.rank ≤ p.rank) : p = .closed := by
  revert h
  cases p <;> decide

/-- Who is about to send the error finds the channel empty. -/
theorem FailInv.send (h : s.FailInv) {id : Nat} (hid : s.fails id = .send) :
    ∃ s', step cfg assign fb s (.fail id) = some s' := by
  have hinside : (s.fails id).stage ≠ 0 := by rw [hid]; decide
  have hsent := (h.once.inside hinside).2.1
  have hroom : s.fatal < fatalCapacity := by
    have hfatal := h.fatal
    unfold fatalCapacity
    omega
  simp only [step, failStep, hid, if_pos hroom]
  exact ⟨_, rfl⟩

theorem OnceInv.sent_le (h : s.OnceInv) : s.sent ≤ 1 := by
  unfold OnceInv at h
  split at h
  · omega
  · omega
  · omega

theorem OnceInv.reported (h : s.OnceInv)
    (hall : ∀ id, s.fails id = .idle ∨ s.fails id = .returned) :
    s.sent = 1 ↔ Phase.failed ∈ s.phases := by
  have hout : ∀ id, (s.fails id).stage = 0 := fun id => by
    rcases hall id with hid | hid
    · rw [hid]; rfl
    · rw [hid]; rfl
  unfold OnceInv at h
  split at h
  · simp [h.2.1, h.2.2]
  · obtain ⟨-, id, -, ⟨hstage, -⟩ | ⟨hstage, -⟩⟩ := h
    · rw [hout id] at hstage
      cases hstage
    · rw [hout id] at hstage
      cases hstage
  · rcases h.2 with ⟨hsent, hp⟩ | ⟨hsent, hp⟩
    · simp [hsent, hp]
    · simp [hsent, hp]

theorem LifeInv.gated (h : s.LifeInv) {a : LifeAct n m} (hs : step cfg assign fb s a = some s') :
    s'.effects = s.effects ∨ (∃ j, a = .sys (.server (.pass j))) ∨
    ∃ e i, a = .sys e ∧ e.worker = some i ∧ s.observed i = some .active ∧
      s.dequeuedIn i = .active := by
  have hsame : SameNotes s s' → s'.sys.server.shards = s.sys.server.shards →
      s'.sys.server.keys = s.sys.server.keys → s'.effects = s.effects := fun hn h1 h2 => by
    unfold effects
    rw [h1, h2, hn.operationTotals]
  cases sysStep h.fail.swap hs with
  | worked e sys ha hm hstep heq =>
    cases touch hstep with
    | nothing hshards hkeys htotals =>
      subst heq
      refine Or.inl ?_
      unfold effects
      rw [hshards, hkeys, htotals]
    | operation i he hw =>
      refine Or.inr (Or.inr ⟨e, i, ha, ?_, h.gate.past i hw⟩)
      rcases he with ⟨pool, rfl⟩ | ⟨now, rfl⟩
      · rfl
      · rfl
    | pass j pass he hc => exact Or.inr (Or.inl ⟨j, he ▸ ha⟩)
  | phase p hp hsys hphases hnotes hq | session c ss hss hsys hphases hnotes hq =>
    exact Or.inl (hsame hnotes (by rw [hsys]; rfl) (by rw [hsys]; rfl))
  | same hsys hphases hnotes hq => exact Or.inl (hsame hnotes (by rw [hsys]) (by rw [hsys]))

theorem donePending_respQueue (sys : System n m) (c c' : Nat) :
    ((sys.donePending c).sessions c').map Session.respQueue =
      (sys.sessions c').map Session.respQueue := by
  unfold System.donePending
  split
  · rename_i ss hc
    rw [System.setSession_sessions]
    by_cases heq : c' = c
    · subst heq
      rw [Function.update_self, hc]
      rfl
    · rw [Function.update_of_ne heq]
  · rfl

/-- A worker that is not past the check moves in `check` only. -/
theorem check_of_worker {sys sys' : System n m} {e : System.Event n m} {i : Fin n}
    (he : e.worker = some i) (hw : (sys.server.workers i).past = false)
    (hs : sys.step cfg assign fb e = some sys') : e = .check i := by
  have hpast : ∀ {w : Worker}, sys.server.workers i = w → w.past = true → False := by
    rintro w rfl h
    rw [hw] at h
    cases h
  cases System.step_cases hs with
  | threads a server hea ha hstep =>
    subst hea
    cases a with
    | apply j now =>
      cases he
      simp only [Server.step] at hstep
      split at hstep
      · exact (hpast ‹_› rfl).elim
      · cases hstep
    | work j pool =>
      cases he
      simp only [Server.step] at hstep
      split at hstep
      · rename_i hwork
        obtain ⟨job, -, hj, -⟩ := (Worker.step_turn hwork).job
        exact (hpast rfl (Worker.past_of_job hj)).elim
      · cases hstep
    | _ => cases he
  | checked j op hej | dropped j op hej => subst hej; cases he; rfl
  | responded j job r ss hej hj | unanswered j job r ss hej hj =>
    subst hej; cases he; exact (hpast hj rfl).elim
  | dequeued j op rest server hej | dispatched c ss op hej | withdrawn c ss op hej =>
    subst hej; cases he
  | session c ss' server hstep =>
    generalize sys.sessions c = o at hstep
    cases hstep <;> subst_vars <;> cases he

theorem LifeInv.dropped (h : s.LifeInv) {e : System.Event n m} {i : Fin n}
    (he : e.worker = some i) (hd : s.dequeuedIn i ≠ .active)
    (hs : step cfg assign fb s (.sys e) = some s') :
    s'.sys.server.workers i = .idle ∧ s'.effects = s.effects ∧ s'.responses = s.responses := by
  have hw : (s.sys.server.workers i).past = false := by
    cases hpast : (s.sys.server.workers i).past with
    | true => exact absurd (h.gate.past i hpast).2 hd
    | false => rfl
  cases step_cases hs with
  | worked e sys hm hstep =>
    obtain rfl := check_of_worker he hw hstep
    cases System.step_cases hstep with
    | dropped j op hej hj hp =>
      cases hej
      have hserver := System.donePending_server (s.sys.setServer (s.sys.server.setWorker i .idle))
        op.session
      refine ⟨?_, ?_, ?_⟩
      · have hworkers := congrArg (fun t : State n m => t.workers i) hserver
        exact hworkers.trans (Function.update_self ..)
      · have hshards := congrArg (fun t : State n m => t.shards) hserver
        have hkeys := congrArg (fun t : State n m => t.keys) hserver
        exact Prod.ext hshards (Prod.ext hkeys rfl)
      · funext c
        exact donePending_respQueue _ op.session c
    | checked j op hej hj hp =>
      cases hej
      have hrank := h.gate.late i op hj hd
      unfold phase at hrank
      rw [hp] at hrank
      exact absurd hrank (by decide)
    | threads a server hej | dequeued j op rest server hej | responded j job r ss hej
    | unanswered j job r ss hej | dispatched c ss op hej | withdrawn c ss op hej => cases hej
    | session c ss' server hsession =>
      generalize s.sys.sessions c = o at hsession
      cases hsession <;> contradiction

/-- **The life of a server is orderly**: for any number of calls of `fail` and of `Close`, any timing
of the timer of the quarantine, and any work on the connections and in the shards. -/
theorem server_life_orderly (cfg : Config) (assign : Nat → Fin n) (fb : Accessors) (clock : Time)
    (acts : List (LifeAct n m)) {s : Life n m}
    (h : Trans.exec (step cfg assign fb) (init n m clock) acts = some s) :
    s.Orderly cfg assign fb := by
  have hi := lifeInv_of_exec h
  exact {
    past := ⟨hi.fail.ordered, hi.fail.last⟩
    future := fun acts' s' hrun => by
      have hrank := hi.fail.forward hrun
      exact ⟨hrank, fun hclosed => closed_of_rank (hclosed ▸ hrank)⟩
    sent := ⟨hi.fail.once.sent_le, fun id hid => hi.fail.send hid⟩
    reported := hi.fail.once.reported
    gated := fun a s' hs => hi.gated hs
    guarded := fun hq => hi.guarded.untouched (by rcases hq with hq | hq <;> rw [hq] <;> rfl)
    dropped := fun e i s' he hd hs => hi.dropped he hd hs }

/-- An Acquire of key 3. -/
def acquireFrame : List UInt8 :=
  [68, 0, 0, 0, 16, 0, 0, 0, 0, 0, 10, 0, 52, 0, 44, 0, 43, 0, 4, 0, 10, 0, 0, 0, 3, 0, 0, 0, 0, 0,
    0, 0, 1, 0, 0, 0, 1, 0, 0, 0, 1, 0, 0, 0, 0, 0, 0, 0, 232, 3, 0, 0, 0, 0, 0, 0, 0, 0, 0, 0, 0, 0,
    0, 1, 7, 0, 0, 0, 0, 0, 0, 0]

/-- A connection sends two requests to an active server. The first is applied; then one call of
`fail` sets the phase while another waits, the worker takes the second request, and the server is
closed. -/
def failingActs : List (LifeAct 1 1) :=
  [.accept, .check, .register, .run 0, .timer, .activate,
    .sys (.receive 0 (acquireFrame ++ acquireFrame)),
    .sys (.reader 0), .sys (.reader 0), .sys (.reader 0), .sys (.reader 0), .sys (.reader 0),
    .sys (.reader 0), .sys (.reader 0), .sys (.reader 0), .sys (.reader 0), .sys (.reader 0),
    .sys (.dequeue 0), .sys (.check 0), .sys (.server (.apply 0 0)),
    .sys (.server (.work 0 .fresh)), .sys (.server (.work 0 .fresh)), .sys (.server (.work 0 .fresh)),
    .sys (.server (.work 0 .fresh)), .sys (.respond 0),
    .callFail 0, .callFail 1, .fail 0, .fail 0, .fail 0, .sys (.dequeue 0), .fail 0, .fail 0,
    .fail 0, .fail 0, .fail 0, .fail 1, .sys (.check 0), .callClose 0, .close 0, .close 0]

theorem server_life_orderly_failingActs :
    ∃ s, Trans.exec (step tinyConfig (fun _ => 0) goAccessors) (init 1 1 0) failingActs = some s ∧
      s.Orderly tinyConfig (fun _ => 0) goAccessors ∧
      s.phases = [.quarantine, .active, .failed, .closed] ∧ s.sent = 1 ∧
      s.operationTotals .acquire = 1 ∧ s.dequeuedIn 0 = .failed ∧ (s.finished 0).length = 2 := by
  obtain ⟨s, hs, hfacts⟩ : ∃ s, Trans.exec (step tinyConfig (fun _ => 0) goAccessors) (init 1 1 0)
      failingActs = some s ∧ s.phases = [.quarantine, .active, .failed, .closed] ∧ s.sent = 1 ∧
        s.operationTotals .acquire = 1 ∧ s.dequeuedIn 0 = .failed ∧
        (s.finished 0).length = 2 := by decide +kernel
  exact ⟨s, hs, server_life_orderly tinyConfig (fun _ => 0) goAccessors 0 failingActs hs, hfacts⟩

end Life

end RedLease.Server
