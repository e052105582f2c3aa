import RedLease.Client.Validity

/-!
# Confirmations

`confirmedUntil[r]` is how long replica `r` is known to keep a lease. It is raised by
`markConfirmed`, from the results of `Acquire`, `Renew` and healing, and erased by `clearConfirmed`,
when a `Renew` fails on the replica. The results of a call may come long after it has returned,
while later operations on the lease have results of their own.

* **`Lease.step_confirms`**: all that a step can do to the confirmations.
* **`confirmations_kept`**: a result of an `Acquire` or of healing takes no confirmation away, and
  neither does a success of a `Renew` that still counts.
* **`older_renew_erases`**: a `Renew` that failed on a replica takes away what a later `Renew` has
  confirmed, since `clearConfirmed` does not look at which of the two is older.
* **`Lease.Traced.step`**: every step keeps a confirmation covered by evidence, with the time of each
  result counted from the start of the operation that asked for it.
-/

namespace RedLease.Client

open Lib

variable {n m : Nat}

/-! ## Operations -/

/-- What an operation asks of the replicas. -/
inductive OpKind where
  | acquire
  | renew
  | heal
  deriving DecidableEq, Repr

/-- An operation whose results are awaited: `start` is what the time of each result is counted
from. -/
structure Running (n : Nat) where
  kind : OpKind
  start : Time
  waits : Waits n

/-- The operation of the public call. -/
def Main.running : Main n → Option (Running n)
  | .acquireSubmit start _ waits | .acquireCollect start waits _ | .acquireQuorum start waits _ =>
    some ⟨.acquire, start, waits⟩
  | .renewSubmit start _ _ waits | .renewCollect start waits _ | .renewQuorum start waits _
  | .renewFailed start waits => some ⟨.renew, start, waits⟩
  | _ => none

/-- The operation that a background goroutine runs or has taken over. -/
def Task.running : Task n → Option (Running n)
  | .collectAcquire start waits => some ⟨.acquire, start, waits⟩
  | .collectRenew start waits => some ⟨.renew, start, waits⟩
  | .healSubmit start _ waits | .healCollect start waits => some ⟨.heal, start, waits⟩
  | _ => none

/-- A result that a step handles: the goroutine that does, if it is not the public call, the
replica, and the response, if there is one. -/
def LeaseAct.result : LeaseAct n m → Option (Option (Fin m) × Fin n × Option Response)
  | .receive r response _ _ => some (none, r, response)
  | .task j (.receive r response _) => some (some j, r, response)
  | _ => none

namespace Lease

variable (l : Lease n m)

/-- What the public call, or the goroutine in slot `j`, waits for. -/
def running : Option (Fin m) → Option (Running n)
  | none => l.main.running
  | some j => (l.tasks j).running

/-- What a result does to the confirmations; `markConfirmed` reads the clock `later`. -/
def confirm (now later : Time) (op : Running n) (r : Fin n) (response : Option Response) : Lease n m :=
  match op.kind with
  | .renew => l.confirmRenew now later r (renewCandidate op.start response)
  | _ => l.confirmAcquire now later r (acquireCandidate op.start response)

/-- All that a step can do to the confirmations. -/
inductive ConfirmStep (now : Time) (a : LeaseAct n m) (confirmedUntil : Fin n → Time) : Prop
  | same (ha : a.result = none) (hc : confirmedUntil = l.confirmedUntil)
  | result (who : Option (Fin m)) (op : Running n) (r : Fin n) (response : Option Response)
      (later : Time) (ha : a.result = some (who, r, response)) (ho : l.running who = some op)
      (hr : op.waits.Answered r response)
      (hc : confirmedUntil = (l.confirm now later op r response).confirmedUntil)
  | refused (requestID : Nat) (start : Time) (ttlMS : Nat) (r : Fin n) (todo : List (Fin n))
      (waits : Waits n) (ha : a = .submit requestID false)
      (hm : l.main = .renewSubmit start ttlMS (r :: todo) waits)
      (hc : confirmedUntil = (l.clearConfirmed r).confirmedUntil)
  | released (ha : a = .release) (hc : confirmedUntil = fun _ => 0)

variable {l} {l' : Lease n m} {quorumSize : Nat} {now : Time} {a : LeaseAct n m}

theorem submit_confirms {requestID : Nat} {accepted : Bool}
    (h : l.submit requestID accepted = some l') :
    l.ConfirmStep now (.submit requestID accepted) l'.confirmedUntil := by
  unfold submit at h
  split at h
  case h_2 start ttlMS r todo waits hm =>
    cases h
    cases accepted with
    | true => exact .same rfl rfl
    | false => exact .refused requestID start ttlMS r todo waits rfl hm rfl
  case h_5 => cases h
  all_goals
    cases h
    exact .same rfl rfl

theorem receive_confirms {r : Fin n} {response : Option Response} {mark pause : Time}
    (h : l.receive quorumSize now mark pause r response = some l') :
    l.ConfirmStep now (.receive r response mark pause) l'.confirmedUntil := by
  unfold receive at h
  split at h
  case h_1 start waits candidates hm =>
    split_ifs at h with hr
    cases h
    exact .result none ⟨.acquire, start, waits⟩ r response _ rfl (by rw [running, hm]; rfl) hr rfl
  case h_2 start waits candidates hm =>
    split_ifs at h with hr
    cases h
    exact .result none ⟨.renew, start, waits⟩ r response _ rfl (by rw [running, hm]; rfl) hr rfl
  case h_3 => cases h

theorem taskReceive_confirms {mark : Time} {j : Fin m} {r : Fin n} {response : Option Response}
    (h : l.taskReceive now mark j r response = some l') :
    l.ConfirmStep now (.task j (.receive r response mark)) l'.confirmedUntil := by
  unfold taskReceive at h
  split at h
  case h_1 start waits hw =>
    split_ifs at h with hr
    cases h
    exact .result (some j) ⟨.acquire, start, waits⟩ r response _ rfl (by rw [running, hw]; rfl) hr rfl
  case h_2 start waits hw =>
    split_ifs at h with hr
    cases h
    exact .result (some j) ⟨.renew, start, waits⟩ r response _ rfl (by rw [running, hw]; rfl) hr rfl
  case h_3 start waits hw =>
    split_ifs at h with hr
    cases h
    exact .result (some j) ⟨.heal, start, waits⟩ r response _ rfl (by rw [running, hw]; rfl) hr rfl
  case h_4 => cases h

theorem taskGo_confirmedUntil {j : Fin m} {ok : Bool} (h : l.taskGo now j ok = some l') :
    l'.confirmedUntil = l.confirmedUntil := by
  unfold taskGo at h
  split at h
  case h_4 => cases h; rfl
  case h_5 => cases h; rfl
  case h_8 => cases h; rfl
  case h_11 => cases h
  case h_6 =>
    split_ifs at h
    · split at h <;> cases h <;> rfl
    · cases h; rfl
  all_goals split_ifs at h <;> cases h <;> rfl

theorem taskStep_confirms {j : Fin m} {b : TaskAct n} (h : l.taskStep now j b = some l') :
    l.ConfirmStep now (.task j b) l'.confirmedUntil := by
  cases b with
  | go ok => exact .same rfl (taskGo_confirmedUntil h)
  | receive r response mark => exact taskReceive_confirms h
  | submit requestID accepted =>
    simp only [taskStep, taskSubmit] at h
    split at h
    · cases h
      exact .same rfl rfl
    · cases h
  | abandon =>
    simp only [taskStep, taskAbandon] at h
    split at h
    case h_4 => cases h
    all_goals
      split_ifs at h
      cases h
      exact .same rfl rfl

/-- **What a step does to the confirmations.** -/
theorem step_confirms (hs : l.step quorumSize now a = some l') :
    l.ConfirmStep now a l'.confirmedUntil := by
  obtain ⟨l₁, h, rfl⟩ := step_cases hs
  have hrecord : (l₁.record (l.outgoing a)).confirmedUntil = l₁.confirmedUntil := by
    cases l.outgoing a <;> rfl
  rw [hrecord]
  cases a with
  | submit requestID accepted => exact submit_confirms h
  | receive r response mark pause => exact receive_confirms h
  | task j b => exact taskStep_confirms h
  | check canceled =>
    simp only [move, check] at h
    split at h
    case h_3 => cases h
    all_goals
      cases h
      exact .same rfl rfl
  | giveUp =>
    simp only [move, giveUp] at h
    split at h
    case h_3 => cases h
    all_goals
      cases h
      exact .same rfl rfl
  | commit canceled j =>
    simp only [move, commit] at h
    split at h
    case h_3 => cases h
    all_goals
      split_ifs at h
      · cases h
        exact .same rfl rfl
      · obtain ⟨-, rfl⟩ := spawn_cases h
        exact .same rfl rfl
  | fail j =>
    simp only [move, fail] at h
    split at h
    case h_3 => cases h
    all_goals
      obtain ⟨-, rfl⟩ := spawn_cases h
      exact .same rfl rfl
  | renew ttlMS =>
    simp only [move, renew] at h
    split at h
    · split_ifs at h
      all_goals
        cases h
        exact .same rfl rfl
    · cases h
  | release =>
    simp only [move, release] at h
    split at h
    · split_ifs at h
      · cases h
        exact .released rfl rfl
      · cases h
        exact .same rfl rfl
    · cases h
  | wait =>
    simp only [move, wait] at h
    split at h
    · split_ifs at h
      cases h
      exact .same rfl rfl
    · cases h
  | done =>
    simp only [move, done] at h
    split at h
    · cases h
      exact .same rfl rfl
    · cases h

theorem result_confirms {who : Option (Fin m)} {r : Fin n} {response : Option Response}
    {op : Running n} (hs : l.step quorumSize now a = some l')
    (ha : a.result = some (who, r, response)) (ho : l.running who = some op) :
    ∃ later, l'.confirmedUntil = (l.confirm now later op r response).confirmedUntil := by
  cases step_confirms hs with
  | same ha' hc => cases ha.symm.trans ha'
  | result who' op' r₁ response' later ha' ho' hr hc =>
    cases ha.symm.trans ha'
    cases ho.symm.trans ho'
    exact ⟨later, hc⟩
  | refused requestID start ttlMS r₁ todo waits ha' hm hc | released ha' hc =>
    subst ha'
    cases ha

/-! ## What takes a confirmation away -/

theorem le_markConfirmed (l : Lease n m) (now : Time) (r : Fin n) (c : Time) (r' : Fin n) :
    l.confirmedUntil r' ≤ (l.markConfirmed now r c).confirmedUntil r' := by
  unfold markConfirmed
  split_ifs with h
  · show l.confirmedUntil r' ≤ Function.update l.confirmedUntil r c r'
    by_cases hr : r' = r
    · subst hr
      rw [Function.update_self]
      exact h.2.2.le
    · rw [Function.update_of_ne hr]
  · exact le_refl _

theorem le_confirmAcquire (l : Lease n m) (now later : Time) (r : Fin n)
    (candidate : Option Time) (r' : Fin n) :
    l.confirmedUntil r' ≤ (l.confirmAcquire now later r candidate).confirmedUntil r' := by
  cases candidate with
  | none => exact le_refl _
  | some c =>
    unfold confirmAcquire
    dsimp only
    split_ifs
    · exact l.le_markConfirmed later r c r'
    · exact le_refl _

theorem clearConfirmed_of_ne {r r' : Fin n} (hr : r' ≠ r) :
    (l.clearConfirmed r).confirmedUntil r' = l.confirmedUntil r' := by
  unfold clearConfirmed
  split_ifs
  · exact Function.update_of_ne hr _ _
  · rfl

/-- The result of a `Renew` still counts: it is a success, for a time in the future. -/
def Counts (now start : Time) (response : Option Response) : Prop :=
  ∃ c ∈ renewCandidate start response, now < c

instance (now start : Time) (response : Option Response) : Decidable (Counts now start response) :=
  inferInstanceAs (Decidable (∃ _ ∈ _, _))

/-- Only a `Renew` takes a confirmation away, and only from the replica that it failed on. -/
theorem le_confirm (l : Lease n m) {now later : Time} {op : Running n} {r r' : Fin n}
    {response : Option Response}
    (hop : op.kind = .renew → r = r' → Counts now op.start response) :
    l.confirmedUntil r' ≤ (l.confirm now later op r response).confirmedUntil r' := by
  unfold confirm
  cases hkind : op.kind with
  | acquire | heal => exact l.le_confirmAcquire now later r _ r'
  | renew =>
    by_cases hr : r = r'
    · obtain ⟨c, hc, hlt⟩ := hop hkind hr
      rw [Option.mem_def.mp hc]
      dsimp only [confirmRenew]
      rw [if_pos hlt]
      exact l.le_markConfirmed later r c r'
    · have hclear := clearConfirmed_of_ne (l := l) (Ne.symm hr)
      cases renewCandidate op.start response with
      | none => exact hclear.ge
      | some c =>
        dsimp only [confirmRenew]
        split_ifs
        · exact l.le_markConfirmed later r c r'
        · exact hclear.ge

/-- A `Renew` that failed takes the confirmation of its replica away, whoever has set it. -/
theorem confirm_failed (l : Lease n m) {now later : Time} {op : Running n} {r : Fin n}
    {response : Option Response} (hkind : op.kind = .renew)
    (hcounts : ¬ Counts now op.start response) (hactive : l.lifecycle = .active) :
    (l.confirm now later op r response).confirmedUntil r = 0 := by
  have hclear : (l.clearConfirmed r).confirmedUntil r = 0 := by
    rw [clearConfirmed, if_pos hactive]
    exact Function.update_self ..
  unfold confirm
  rw [hkind]
  cases hc : renewCandidate op.start response with
  | none => exact hclear
  | some c =>
    dsimp only [confirmRenew]
    rw [if_neg fun hlt => hcounts ⟨c, hc, hlt⟩]
    exact hclear

/-- The step is not one that takes the confirmation of replica `r` away: the `Release` of the lease,
a `Renew` that the send queue of `r` refuses, or a result from `r` of a `Renew` that does not
count. `Release` ends the lease and clears everything, and where the send queue refuses a `Renew` the
replica is cleared before there is a request, so neither is a result that comes late. -/
def Gentle (r : Fin n) (l : Lease n m) (a : Time × LeaseAct n m) : Prop :=
  a.2 ≠ .release ∧
  (∀ requestID start ttlMS todo waits, a.2 = .submit requestID false →
    l.main ≠ .renewSubmit start ttlMS (r :: todo) waits) ∧
  ∀ who response op, a.2.result = some (who, r, response) → l.running who = some op →
    op.kind = .renew → Counts a.1 op.start response

theorem Gentle.le {r : Fin n} (h : Gentle r l (now, a)) (hs : l.step quorumSize now a = some l') :
    l.confirmedUntil r ≤ l'.confirmedUntil r := by
  obtain ⟨hrelease, hrefused, hresult⟩ := h
  cases step_confirms hs with
  | same ha hc => rw [hc]
  | result who op r' response later ha ho hr hc =>
    rw [hc]
    refine l.le_confirm fun hkind hr => ?_
    subst hr
    exact hresult who response op ha ho hkind
  | refused requestID start ttlMS r' todo waits ha hm hc =>
    have hr : r ≠ r' := by
      rintro rfl
      exact hrefused requestID start ttlMS todo waits ha hm
    rw [hc, clearConfirmed_of_ne hr]
  | released ha hc => exact absurd ha hrelease

end Lease

open Lease

/-- **A confirmation is not taken away** by a result of an `Acquire` or of healing, nor by a `Renew`
that succeeded on the replica in time, whichever operation has set it and however late the result
is; a `Renew` that failed on the replica takes it away as long as the lease is active; and nothing else
takes it away in a run but `Release`. -/
theorem confirmations_kept (quorumSize : Nat) (l : Lease n m) :
    (∀ now a l' who r response op, l.step quorumSize now a = some l' →
      a.result = some (who, r, response) → l.running who = some op →
      (op.kind = .renew → Counts now op.start response) →
      ∀ r', l.confirmedUntil r' ≤ l'.confirmedUntil r') ∧
    (∀ now a l' who r response op, l.step quorumSize now a = some l' →
      a.result = some (who, r, response) → l.running who = some op → op.kind = .renew →
      ¬ Counts now op.start response → l.lifecycle = .active → l'.confirmedUntil r = 0) ∧
    ∀ r acts l', Trans.exec (stepAt quorumSize) l acts = some l' →
      Trans.Along (stepAt quorumSize) (Gentle r) l acts →
      l.confirmedUntil r ≤ l'.confirmedUntil r := by
  refine ⟨fun now a l' who r response op hs ha ho hop r' => ?_,
    fun now a l' who r response op hs ha ho hkind hcounts hactive => ?_, fun r acts l' he halong => ?_⟩
  · obtain ⟨later, hc⟩ := result_confirms hs ha ho
    rw [hc]
    exact l.le_confirm fun hkind _ => hop hkind
  · obtain ⟨later, hc⟩ := result_confirms hs ha ho
    rw [hc]
    exact l.confirm_failed hkind hcounts hactive
  · exact Trans.exec_along (I := fun l₁ : Lease n m => l.confirmedUntil r ≤ l₁.confirmedUntil r)
      (fun hle hgentle hs => hle.trans (hgentle.le hs)) (le_refl _) halong he

/-- `Renew` returns with two of three replicas at one second; the third has not answered when the
next `Renew` waits for all of them at two seconds. -/
def overtakenActs : List (Time × LeaseAct 3 2) :=
  [(0, .submit 1 true), (0, .submit 2 true), (0, .submit 3 true), (0, .check false),
    (0, .receive 0 (some (acquireResponse 1 LeaseStatus.ok 5000)) 0 0),
    (0, .receive 1 (some (acquireResponse 2 LeaseStatus.ok 5000)) 0 0), (0, .commit false 0),
    (0, .task 0 (.receive 2 (some (acquireResponse 3 LeaseStatus.ok 5000)) 0)),
    (0, .task 0 (.go true)), (0, .task 0 (.go true)),
    (1000 * millisecond, .renew 5000), (1000 * millisecond, .submit 4 true),
    (1000 * millisecond, .submit 5 true), (1000 * millisecond, .submit 6 true),
    (1000 * millisecond, .check false),
    (1000 * millisecond, .receive 0 (some (renewResponse 4 LeaseStatus.ok 5000)) 0 0),
    (1000 * millisecond, .receive 1 (some (renewResponse 5 LeaseStatus.ok 5000)) 0 0),
    (1000 * millisecond, .commit false 0),
    (2000 * millisecond, .renew 5000), (2000 * millisecond, .submit 7 true),
    (2000 * millisecond, .submit 8 true), (2000 * millisecond, .submit 9 true),
    (2000 * millisecond, .check false)]

/-- The third replica answers the second `Renew`, and then the first one fails on it. -/
def overtaken (l l₁ l₂ : Lease 3 2) : Prop :=
  Trans.exec (stepAt 2) (init 0 5000 0) overtakenActs = some l ∧
    l.step 2 (2000 * millisecond) (.receive 2 (some (renewResponse 9 LeaseStatus.ok 5000)) 0 0) =
      some l₁ ∧
    l₁.step 2 (2000 * millisecond) (.task 0 (.receive 2 none 0)) = some l₂

/-- What the three states say about the third replica, and which operations run in the first. -/
theorem overtaken_exists : ∃ l l₁ l₂, overtaken l l₁ l₂ ∧
    (l.running (some 0)).map (fun op => (op.kind, op.start)) =
      some (.renew, 1000 * millisecond) ∧
    (l.running none).map (fun op => (op.kind, op.start)) = some (.renew, 2000 * millisecond) ∧
    l₁.confirmedUntil 2 = 6900 * millisecond ∧ l₂.confirmedUntil 2 = 0 := by
  have hrun : ((Trans.exec (stepAt 2) (init 0 5000 0) overtakenActs).bind fun l =>
      (l.step 2 (2000 * millisecond)
          (.receive 2 (some (renewResponse 9 LeaseStatus.ok 5000)) 0 0)).bind fun l₁ =>
        (l₁.step 2 (2000 * millisecond) (.task 0 (.receive 2 none 0))).map fun l₂ =>
          ((l.running (some 0)).map (fun op => (op.kind, op.start)),
            (l.running none).map (fun op => (op.kind, op.start)), l₁.confirmedUntil 2,
            l₂.confirmedUntil 2)) =
      some (some (.renew, 1000 * millisecond), some (.renew, 2000 * millisecond),
        6900 * millisecond, 0) := by decide +kernel
  obtain ⟨l, hl, hrest⟩ := Option.bind_eq_some_iff.mp hrun
  obtain ⟨l₁, hl₁, hrest⟩ := Option.bind_eq_some_iff.mp hrest
  obtain ⟨l₂, hl₂, hend⟩ := Option.map_eq_some_iff.mp hrest
  simp only [Prod.mk.injEq] at hend
  exact ⟨l, l₁, l₂, ⟨hl, hl₁, hl₂⟩, hend⟩

/-- The result that confirms is a success in time, so that nothing is taken away by it. -/
theorem confirmations_kept_overtaken : ∃ l l₁ l₂, overtaken l l₁ l₂ ∧
    ∀ r, l.confirmedUntil r ≤ l₁.confirmedUntil r := by
  obtain ⟨l, l₁, l₂, hrun, -, hnone, -, -⟩ := overtaken_exists
  obtain ⟨op, hop, hstart⟩ := Option.map_eq_some_iff.mp hnone
  have hcounts : op.kind = .renew → Counts (2000 * millisecond) op.start
      (some (renewResponse 9 LeaseStatus.ok 5000)) := by
    intro
    rw [(Prod.mk.inj hstart).2]
    decide
  exact ⟨l, l₁, l₂, hrun, (confirmations_kept 2 l).1 _ _ _ _ _ _ _ hrun.2.1 rfl hop hcounts⟩

/-- **An older `Renew` takes away what a newer one has confirmed.** Both wait for the third replica.
The newer one gets its success and confirms the replica for almost five seconds to come; then the
older one, which started a second before it, hears that its own request failed, and the confirmation
is gone. -/
theorem older_renew_erases : ∃ l l₁ l₂, overtaken l l₁ l₂ ∧
    (∃ older newer, l.running (some 0) = some older ∧ l.running none = some newer ∧
      older.kind = .renew ∧ older.start < newer.start ∧
      l₁.confirmedUntil 2 = candidateValidUntil newer.start 5000) ∧
    2000 * millisecond < l₁.confirmedUntil 2 ∧ l₂.confirmedUntil 2 = 0 := by
  obtain ⟨l, l₁, l₂, hrun, hsome, hnone, hc₁, hc₂⟩ := overtaken_exists
  obtain ⟨older, holder, hstart⟩ := Option.map_eq_some_iff.mp hsome
  obtain ⟨newer, hnewer, hstart'⟩ := Option.map_eq_some_iff.mp hnone
  obtain ⟨hkind, hstart⟩ := Prod.mk.inj hstart
  obtain ⟨-, hstart'⟩ := Prod.mk.inj hstart'
  refine ⟨l, l₁, l₂, hrun, ⟨older, newer, holder, hnewer, hkind, ?_, ?_⟩, ?_, hc₂⟩
  · rw [hstart, hstart']
    decide
  · rw [hc₁, hstart']
    decide
  · rw [hc₁]
    decide

/-! ## What a confirmation rests on -/

namespace Lease

variable {l l' : Lease n m} {e e' : Evidence n} {quorumSize : Nat} {now now' : Time}
  {a : LeaseAct n m}

/-- All that a step can do to an operation that runs after it: it goes on, it is handed over to a
goroutine, it has a request more or one less to wait for, or it is new. -/
inductive RunningStep (l : Lease n m) (now : Time) (a : LeaseAct n m) (op' : Running n) : Prop
  | same (who : Option (Fin m)) (h : l.running who = some op')
  | consumed (who : Option (Fin m)) (op : Running n) (r : Fin n) (h : l.running who = some op)
      (hop : op' = { op with waits := op.waits.consume r })
  | submitted (who : Option (Fin m)) (op : Running n) (request : Request n) (accepted : Bool)
      (h : l.running who = some op)
      (hop : op' = { op with waits := op.waits.submit request.replica request.requestID accepted })
      (ha : accepted = true → l.outgoing a = some request)
  | fresh (hwaits : op'.waits = fun _ => none) (hstart : op'.start = now ∨ op'.start = l.now)

section Running

variable {l₁ : Lease n m} {who : Option (Fin m)} {op : Running n}

/-- The step of a goroutine. -/
theorem RunningStep.of_task {j : Fin m} {task : Task n}
    (h : (l₁.setTask j task).running who = some op) (hm : l₁.main = l.main)
    (ht : l₁.tasks = l.tasks) (htask : ∀ op, task.running = some op → RunningStep l now a op) :
    RunningStep l now a op := by
  cases who with
  | none => exact .same none ((congrArg Main.running hm).symm.trans h)
  | some i =>
    have h' : (Function.update l₁.tasks j task i).running = some op := h
    by_cases hi : i = j
    · subst hi
      rw [Function.update_self] at h'
      exact htask op h'
    · rw [Function.update_of_ne hi, ht] at h'
      exact .same (some i) h'

/-- The step of a goroutine that waits for no operation after it. -/
theorem RunningStep.of_rest {j : Fin m} {task : Task n}
    (h : (l₁.setTask j task).running who = some op) (hm : l₁.main = l.main)
    (ht : l₁.tasks = l.tasks) (hnone : task.running = none) : RunningStep l now a op := by
  refine .of_task h hm ht fun op hop => ?_
  rw [hnone] at hop
  cases hop

/-- The step of the public call. -/
theorem RunningStep.of_main (h : l₁.running who = some op) (ht : l₁.tasks = l.tasks)
    (hmain : ∀ op, l₁.main.running = some op → RunningStep l now a op) :
    RunningStep l now a op := by
  cases who with
  | none => exact hmain op h
  | some i => exact .same (some i) ((congrArg (fun tasks => (tasks i).running) ht).symm.trans h)

/-- The public call leaves a goroutine behind. -/
theorem RunningStep.of_spawn {j : Fin m} {task : Task n} (hs : l₁.spawn j task = some l')
    (ht : l₁.tasks = l.tasks) (hmain : l₁.main.running = none)
    (htask : ∀ op, task.running = some op → l.running none = some op)
    (h : l'.running who = some op) : RunningStep l now a op := by
  obtain ⟨-, rfl⟩ := spawn_cases hs
  cases who with
  | none =>
    have h' : l₁.main.running = some op := h
    rw [hmain] at h'
    cases h'
  | some i =>
    have h' : (Function.update l₁.tasks j task i).running = some op := h
    by_cases hi : i = j
    · subst hi
      rw [Function.update_self] at h'
      exact .same none (htask op h')
    · rw [Function.update_of_ne hi, ht] at h'
      exact .same (some i) h'

theorem taskGo_running {j : Fin m} {ok : Bool} (hs : l.taskGo now j ok = some l')
    (h : l'.running who = some op) : RunningStep l now a op := by
  unfold taskGo at hs
  split at hs
  case h_1 => split_ifs at hs; cases hs; exact .of_rest h rfl rfl rfl
  case h_2 => split_ifs at hs; cases hs; exact .of_rest h rfl rfl rfl
  case h_3 =>
    split_ifs at hs
    all_goals
      cases hs
      exact .of_rest h rfl rfl rfl
  case h_4 =>
    cases hs
    exact .of_rest h rfl rfl (by split_ifs <;> rfl)
  case h_5 =>
    cases hs
    exact .of_rest h rfl rfl (by split_ifs <;> rfl)
  case h_6 =>
    split_ifs at hs
    · split at hs
      all_goals
        cases hs
        exact .of_rest h rfl rfl rfl
    · cases hs
      exact .of_rest h rfl rfl rfl
  case h_7 targets hw =>
    split_ifs at hs
    · cases hs
      refine .of_task h rfl rfl fun op hop => ?_
      cases hop
      exact .fresh rfl (.inr rfl)
    · cases hs
      exact .of_rest h rfl rfl rfl
  case h_8 start waits hw =>
    cases hs
    refine .of_task h rfl rfl fun op hop => ?_
    cases hop
    exact .same (some j) (by rw [running, hw]; rfl)
  case h_9 => split_ifs at hs; cases hs; exact .of_rest h rfl rfl rfl
  case h_10 =>
    split_ifs at hs
    all_goals
      cases hs
      exact .of_rest h rfl rfl rfl
  case h_11 => cases hs

theorem taskStep_running {j : Fin m} {b : TaskAct n} (hs : l.taskStep now j b = some l')
    (h : l'.running who = some op) : RunningStep l now (.task j b) op := by
  cases b with
  | go ok => exact taskGo_running hs h
  | receive r response mark =>
    simp only [taskStep, taskReceive] at hs
    split at hs
    case h_4 => cases hs
    case h_2 start waits hw =>
      split_ifs at hs
      cases hs
      obtain ⟨c, hc⟩ := l.confirmRenew_eq now (now + mark) r (renewCandidate start response)
      rw [hc] at h
      refine .of_task h rfl rfl fun op hop => ?_
      cases hop
      exact .consumed (some j) ⟨.renew, start, waits⟩ r (by rw [running, hw]; rfl) rfl
    case h_1 start waits hw =>
      split_ifs at hs
      cases hs
      obtain ⟨c, hc⟩ := l.confirmAcquire_eq now (now + mark) r (acquireCandidate start response)
      rw [hc] at h
      refine .of_task h rfl rfl fun op hop => ?_
      cases hop
      exact .consumed (some j) ⟨.acquire, start, waits⟩ r (by rw [running, hw]; rfl) rfl
    case h_3 start waits hw =>
      split_ifs at hs
      cases hs
      obtain ⟨c, hc⟩ := l.confirmAcquire_eq now (now + mark) r (acquireCandidate start response)
      rw [hc] at h
      refine .of_task h rfl rfl fun op hop => ?_
      cases hop
      exact .consumed (some j) ⟨.heal, start, waits⟩ r (by rw [running, hw]; rfl) rfl
  | submit requestID accepted =>
    simp only [taskStep, taskSubmit] at hs
    split at hs
    · rename_i start r todo waits hw
      cases hs
      refine .of_task h rfl rfl fun op hop => ?_
      cases hop
      refine .submitted (some j) ⟨.heal, start, waits⟩ ⟨r, requestID, l.requestedTTLMS, .heal⟩
        accepted (by rw [running, hw]; rfl) rfl fun hacc => ?_
      subst hacc
      simp only [outgoing, hw]
    · cases hs
  | abandon =>
    simp only [taskStep, taskAbandon] at hs
    split at hs
    case h_4 => cases hs
    all_goals
      split_ifs at hs
      cases hs
      exact .of_rest h rfl rfl rfl

theorem submit_running {requestID : Nat} {accepted : Bool}
    (hs : l.submit requestID accepted = some l') (h : l'.running who = some op) :
    RunningStep l now (.submit requestID accepted) op := by
  unfold submit at hs
  split at hs
  case h_1 start r todo waits hm =>
    cases hs
    refine .of_main h rfl fun op hop => ?_
    cases hop
    refine .submitted none ⟨.acquire, start, waits⟩ ⟨r, requestID, l.requestedTTLMS, .acquire⟩
      accepted (by rw [running, hm]; rfl) rfl fun hacc => ?_
    subst hacc
    simp only [outgoing, hm]
  case h_2 start ttlMS r todo waits hm =>
    cases hs
    obtain ⟨c, hc⟩ := l.clearConfirmed_eq r
    refine .of_main h ?_ fun op hop => ?_
    · rw [hc]
      split_ifs <;> rfl
    · cases hop
      refine .submitted none ⟨.renew, start, waits⟩ ⟨r, requestID, ttlMS, .renew⟩ accepted
        (by rw [running, hm]; rfl) rfl fun hacc => ?_
      subst hacc
      simp only [outgoing, hm]
  case h_3 r todo hm =>
    cases hs
    exact .of_main h rfl fun op hop => by cases hop
  case h_4 r todo hm =>
    cases hs
    exact .of_main h rfl fun op hop => by cases hop
  case h_5 => cases hs

theorem receive_running {r : Fin n} {response : Option Response} {mark pause : Time}
    (hs : l.receive quorumSize now mark pause r response = some l') (h : l'.running who = some op) :
    RunningStep l now (.receive r response mark pause) op := by
  unfold receive at hs
  split at hs
  case h_1 start waits candidates hm =>
    split_ifs at hs
    cases hs
    obtain ⟨c, hc⟩ := l.confirmAcquire_eq now (now + mark) r (acquireCandidate start response)
    rw [hc] at h
    refine .of_main h rfl fun op hop => ?_
    dsimp only [setMain] at hop
    split at hop
    case h_3 => cases hop
    all_goals
      cases hop
      exact .consumed none ⟨.acquire, start, waits⟩ r (by rw [running, hm]; rfl) rfl
  case h_2 start waits candidates hm =>
    split_ifs at hs
    cases hs
    obtain ⟨c, hc⟩ := l.confirmRenew_eq now (now + mark) r (renewCandidate start response)
    rw [hc] at h
    refine .of_main h rfl fun op hop => ?_
    dsimp only [setMain] at hop
    split at hop
    all_goals
      cases hop
      exact .consumed none ⟨.renew, start, waits⟩ r (by rw [running, hm]; rfl) rfl
  case h_3 => cases hs

theorem move_running (hs : l.move quorumSize now a = some l') (h : l'.running who = some op) :
    RunningStep l now a op := by
  cases a with
  | submit requestID accepted => exact submit_running hs h
  | receive r response mark pause => exact receive_running hs h
  | task j b => exact taskStep_running hs h
  | check canceled =>
    simp only [move, check] at hs
    split at hs
    case h_3 => cases hs
    all_goals
      rename_i hm
      cases hs
      refine .of_main h rfl fun op hop => ?_
      dsimp only [setMain] at hop
      split_ifs at hop
      all_goals
        cases hop
        try exact .same none (by rw [running, hm]; rfl)
  | giveUp =>
    simp only [move, giveUp] at hs
    split at hs
    case h_3 => cases hs
    all_goals
      rename_i hm
      cases hs
      refine .of_main h rfl fun op hop => ?_
      cases hop
      try exact .same none (by rw [running, hm]; rfl)
  | commit canceled j =>
    simp only [move, commit] at hs
    split at hs
    case h_3 => cases hs
    all_goals
      rename_i hm
      split_ifs at hs
      · cases hs
        refine .of_main h rfl fun op hop => ?_
        cases hop
        try exact .same none (by rw [running, hm]; rfl)
      · refine .of_spawn hs rfl rfl (fun op hop => ?_) h
        cases hop
        rw [running, hm]
        rfl
  | fail j =>
    simp only [move, fail] at hs
    split at hs
    case h_3 => cases hs
    all_goals
      rename_i hm
      refine .of_spawn hs rfl rfl (fun op hop => ?_) h
      cases hop
      try
        rw [running, hm]
        rfl
  | renew ttlMS =>
    simp only [move, renew] at hs
    split at hs
    · split_ifs at hs
      · cases hs
        refine .of_main h rfl fun op hop => ?_
        cases hop
        exact .fresh rfl (.inl rfl)
      · cases hs
        exact .of_main h rfl fun op hop => by cases hop
    · cases hs
  | release =>
    simp only [move, release] at hs
    split at hs
    · split_ifs at hs
      all_goals
        cases hs
        exact .of_main h rfl fun op hop => by cases hop
    · cases hs
  | wait =>
    simp only [move, wait] at hs
    split at hs
    · split_ifs at hs
      cases hs
      exact .of_main h rfl fun op hop => by cases hop
    · cases hs
  | done =>
    simp only [move, done] at hs
    split at hs
    · cases hs
      exact .of_main h rfl fun op hop => by cases hop
    · cases hs

/-- **What a step does to the operations.** -/
theorem step_running (hs : l.step quorumSize now a = some l') (h : l'.running who = some op) :
    RunningStep l now a op := by
  obtain ⟨l₁, hmove, rfl⟩ := step_cases hs
  have hrecord : (l₁.record (l.outgoing a)).running who = l₁.running who := by
    cases l.outgoing a <;> cases who <;> rfl
  exact move_running hmove (hrecord.symm.trans h)

end Running

/-- Every operation counts the time from before its requests were sent, and every confirmation is
covered by the evidence. -/
structure Traced (e : Evidence n) (now : Time) (l : Lease n m) : Prop where
  now_le : l.now ≤ now
  running : ∀ who op, l.running who = some op → op.start ≤ now ∧ e.Asked op.start op.waits
  confirmed : ∀ r, 0 < l.confirmedUntil r → e.kept r (l.confirmedUntil r)

theorem traced_init (key requestedTTLMS : Nat) (now : Time) :
    (init key requestedTTLMS now : Lease n m).Traced e now where
  now_le := le_refl _
  running who op h := by
    cases who with
    | none =>
      cases h
      exact ⟨le_refl _, nofun⟩
    | some j => cases h
  confirmed _ h := absurd h (Nat.lt_irrefl 0)

theorem Traced.mono (hle : e.Le e') (hnow : now ≤ now') (h : l.Traced e now) :
    l.Traced e' now' where
  now_le := h.now_le.trans hnow
  running who op hop :=
    ⟨(h.running who op hop).1.trans hnow, (h.running who op hop).2.mono hle⟩
  confirmed r hr := hle.kept (h.confirmed r hr)

theorem step_now (hs : l.step quorumSize now a = some l') : l'.now = l.now ∨ l'.now = now := by
  obtain ⟨l₁, hmove, rfl⟩ := step_cases hs
  have hrecord : (l₁.record (l.outgoing a)).now = l₁.now := by cases l.outgoing a <;> rfl
  rw [hrecord]
  cases move_cases hmove with
  | renew o start ttlMS hm hactive =>
    simp only [move, renew, hm, if_pos hactive, Option.some.injEq] at hmove
    exact .inr (congrArg Lease.now hmove).symm
  | task j b h | call a hm h => cases h <;> exact .inl rfl
  | _ => exact .inl rfl

theorem clearConfirmed_cases (l : Lease n m) (r r' : Fin n) :
    (l.clearConfirmed r).confirmedUntil r' = l.confirmedUntil r' ∨
      (l.clearConfirmed r).confirmedUntil r' = 0 := by
  by_cases hr : r' = r
  · subst hr
    unfold clearConfirmed
    split_ifs
    · exact .inr (Function.update_self _ _ _)
    · exact .inl rfl
  · exact .inl (clearConfirmed_of_ne hr)

theorem markConfirmed_cases (l : Lease n m) (now : Time) (r : Fin n) (c : Time) (r' : Fin n) :
    (l.markConfirmed now r c).confirmedUntil r' = l.confirmedUntil r' ∨
      r' = r ∧ (l.markConfirmed now r c).confirmedUntil r' = c := by
  unfold markConfirmed
  split_ifs
  · by_cases hr : r' = r
    · subst hr
      exact .inr ⟨rfl, Function.update_self _ _ _⟩
    · exact .inl (Function.update_of_ne hr _ _)
  · exact .inl rfl

/-- After a result from `r` the confirmation of `r'` is what it was, or erased, or the candidate of
the result. -/
def Credible (l : Lease n m) (op : Running n) (r : Fin n) (response : Option Response) (r' : Fin n)
    (confirmedUntil : Time) : Prop :=
  confirmedUntil = l.confirmedUntil r' ∨ confirmedUntil = 0 ∨
    r' = r ∧ ∃ answer, response = some answer ∧ Successful answer ∧
      confirmedUntil = candidateValidUntil op.start answer.ttlMS

section Credible

variable {op : Running n} {r r' : Fin n} {response : Option Response}

theorem credible_markConfirmed {c : Time} (h : ∃ answer, response = some answer ∧
      Successful answer ∧ c = candidateValidUntil op.start answer.ttlMS) :
    l.Credible op r response r' ((l.markConfirmed now r c).confirmedUntil r') := by
  obtain ⟨answer, hresponse, hsucc, hc⟩ := h
  rcases l.markConfirmed_cases now r c r' with hsame | ⟨hr, heq⟩
  · exact .inl hsame
  · exact .inr (.inr ⟨hr, answer, hresponse, hsucc, heq.trans hc⟩)

theorem credible_clearConfirmed :
    l.Credible op r response r' ((l.clearConfirmed r).confirmedUntil r') :=
  (l.clearConfirmed_cases r r').imp_right .inl

theorem credible_confirmAcquire {later : Time} : l.Credible op r response r'
    ((l.confirmAcquire now later r (acquireCandidate op.start response)).confirmedUntil r') := by
  cases hcand : acquireCandidate op.start response with
  | none => exact .inl rfl
  | some c =>
    dsimp only [confirmAcquire]
    split_ifs
    · exact credible_markConfirmed (acquireCandidate_cases hcand)
    · exact .inl rfl

theorem credible_confirm {later : Time} :
    l.Credible op r response r' ((l.confirm now later op r response).confirmedUntil r') := by
  unfold confirm
  cases op.kind with
  | acquire | heal => exact credible_confirmAcquire
  | renew =>
    cases hcand : renewCandidate op.start response with
    | none => exact credible_clearConfirmed
    | some c =>
      dsimp only [confirmRenew]
      split_ifs
      · exact credible_markConfirmed (renewCandidate_cases hcand)
      · exact credible_clearConfirmed

end Credible

/-- **Every step keeps the trace of the confirmations.** -/
theorem Traced.step (h : l.Traced e now)
    (hasked : ∀ request start, l.outgoing a = some request → start ≤ now →
      e.asked request.replica request.requestID start)
    (hkept : ∀ who r answer start, a.result = some (who, r, some answer) →
      e.asked r answer.requestID start → Successful answer →
      e.kept r (candidateValidUntil start answer.ttlMS))
    (hs : l.step quorumSize now a = some l') : l'.Traced e now where
  now_le := by
    rcases step_now hs with hnow | hnow
    · rw [hnow]
      exact h.now_le
    · rw [hnow]
  running who op hop := by
    cases step_running hs hop with
    | same who' hold => exact h.running who' op hold
    | consumed who' op' r hold heq =>
      subst heq
      obtain ⟨hstart, hwaits⟩ := h.running who' op' hold
      exact ⟨hstart, hwaits.consume r⟩
    | submitted who' op' request accepted hold heq ha =>
      subst heq
      obtain ⟨hstart, hwaits⟩ := h.running who' op' hold
      exact ⟨hstart, hwaits.submit fun hacc => hasked request op'.start (ha hacc) hstart⟩
    | fresh hwaits hstart =>
      refine ⟨?_, fun r id hid => ?_⟩
      · rcases hstart with hstart | hstart
        · exact hstart.le
        · rw [hstart]
          exact h.now_le
      · rw [hwaits] at hid
        cases hid
  confirmed r hr := by
    cases step_confirms hs with
    | same ha hc =>
      rw [hc] at hr ⊢
      exact h.confirmed r hr
    | refused requestID start ttlMS r' todo waits ha hm hc =>
      rw [hc] at hr ⊢
      rcases l.clearConfirmed_cases r' r with hsame | hzero
      · rw [hsame] at hr ⊢
        exact h.confirmed r hr
      · rw [hzero] at hr
        exact absurd hr (Nat.lt_irrefl 0)
    | released ha hc =>
      rw [hc] at hr
      exact absurd hr (Nat.lt_irrefl 0)
    | result who op r' response later ha ho hanswered hc =>
      rw [hc] at hr ⊢
      have hcredible : l.Credible op r' response r
          ((l.confirm now later op r' response).confirmedUntil r) := credible_confirm
      rcases hcredible with hsame | hzero | ⟨heq, answer, hr', hsucc, hc'⟩
      · rw [hsame] at hr ⊢
        exact h.confirmed r hr
      · rw [hzero] at hr
        exact absurd hr (Nat.lt_irrefl 0)
      · subst heq hr'
        rw [hc']
        obtain ⟨id, hid, hmatch⟩ := hanswered
        have hask := (h.running who op ho).2 r id hid
        rw [← hmatch answer rfl] at hask
        exact hkept who r answer op.start ha hask hsucc

end Lease

end RedLease.Client
