import RedLease.Client.Validity

/-!
# What `Acquire` and `Renew` return

A script is all that a call could observe: which submissions are accepted, the responses, errors and
timeouts in the order in which `next` returns them, with the readings of the clock, and when the call
is canceled. The call stops to look at it when it returns. `Script.Succeeds` is the plain quorum rule
over the whole script, in its own words; the loops of `Acquire` and `Renew` with their early exits
agree with it.

Between the steps of a call the background goroutines of the lease may do anything: `calls` takes
their steps out of a run. `Lease.run` skips a step that the code does not take.

* `Script.loop`: the loop that both calls have.
* **`acquire_outcome`** and **`renew_outcome`**: the calls succeed exactly when the rule says so.
-/

namespace RedLease.Client

open Lib

/-! ## Scripts -/

/-- The two calls that collect a quorum. -/
inductive QuorumCall where
  | acquire
  | renew
  deriving DecidableEq

/-- What `next` returns in the loop of a call. -/
inductive Event (n : Nat) where
  /-- The response of replica `r`, or an error. The clock is read when it is received, again after
  `mark`, and after `pause`; `canceled` is what a cancellation check then finds. -/
  | answer (r : Fin n) (response : Option Response) (now mark pause : Time) (canceled : Bool)
  /-- The caller's context has ended. -/
  | canceled (now : Time)

/-- What a call can observe. -/
structure Script (n : Nat) where
  start : Time
  ttlMS : Nat
  /-- When each request was submitted, its ID, and whether it was accepted. -/
  submissions : Fin n → Time × Nat × Bool
  /-- The cancellation check after the submissions. -/
  check : Time × Bool
  events : List (Event n)

/-- The response answers the call. -/
def QuorumCall.Answers : QuorumCall → Response → Prop
  | .acquire, response => response.operation = ClientOperation.acquire ∧
      (response.status = LeaseStatus.ok ∨ response.status = LeaseStatus.alreadyOwned)
  | .renew, response =>
      response.operation = ClientOperation.renew ∧ response.status = LeaseStatus.ok

instance : (call : QuorumCall) → (response : Response) → Decidable (call.Answers response)
  | .acquire, _ => inferInstanceAs (Decidable (_ ∧ (_ ∨ _)))
  | .renew, _ => inferInstanceAs (Decidable (_ ∧ _))

variable {n m : Nat}

namespace Event

/-- The replica whose request is completed. -/
def replica : Event n → Option (Fin n)
  | .answer r _ _ _ _ _ => some r
  | .canceled _ => none

/-- The response, if there is one. -/
def response : Event n → Option Response
  | .answer _ response _ _ _ _ => response
  | .canceled _ => none

/-- The reading of the clock. -/
def now : Event n → Time
  | .answer _ _ now _ _ _ => now
  | .canceled now => now

/-- The last reading of the clock. -/
def later : Event n → Time
  | .answer _ _ now mark pause _ => now + mark + pause
  | .canceled now => now

/-- The call is canceled by now. -/
def stopped : Event n → Bool
  | .answer _ _ _ _ _ c => c
  | .canceled _ => true

/-- The time up to which the event counts for replica `r`: 100 ms less than the TTL after the start
of the call, and not at all if the TTL makes no sense. -/
def candidate (call : QuorumCall) (start : Time) (r : Fin n) : Event n → Option Time
  | .answer r' (some response) _ _ _ _ =>
    if r' = r ∧ call.Answers response then
      some (if 100 < response.ttlMS ∧ response.ttlMS ≤ 5000 then
        start + (response.ttlMS - 100) * millisecond else start)
    else none
  | _ => none

/-- The steps of the call: the loop body with the return that may follow it. -/
def acts (j : Fin m) : Event n → List (Time × LeaseAct n m)
  | .answer r response now mark pause c => [(now, .receive r response mark pause), (now, .commit c j)]
  | .canceled now => [(now, .giveUp)]

end Event

/-- The candidates of the replicas that have answered. -/
def candidatesOf (call : QuorumCall) (start : Time) (events : List (Event n)) : Candidates n :=
  fun r => events.findSome? (Event.candidate call start r)

/-- After these events, at the time `now`, a quorum is valid up to `v`, the quorum-th largest of the
candidates. -/
def QuorumValid (call : QuorumCall) (quorumSize : Nat) (start : Time) (events : List (Event n))
    (now v : Time) : Prop :=
  KthLargest ((List.finRange n).filterMap (candidatesOf call start events)) quorumSize v ∧ now < v

namespace Script

variable (script : Script n)

/-- The script is of one call: only accepted requests are answered, each once and with its ID; the
clock does not go back, and what is canceled stays canceled. -/
structure Possible : Prop where
  accepted : ∀ e ∈ script.events, ∀ r ∈ e.replica, (script.submissions r).2.2 = true
  requestID : ∀ e ∈ script.events, ∀ r ∈ e.replica, ∀ answer ∈ e.response,
    answer.requestID = (script.submissions r).2.1
  once : (script.events.filterMap Event.replica).Nodup
  clock : script.events.Pairwise fun e e' => e.later ≤ e'.now
  canceled : script.events.Pairwise fun e e' => e.stopped = true → e'.stopped = true

/-- Every request gets its answer, or the call is canceled. -/
def Complete : Prop :=
  (∃ e ∈ script.events, e.replica = none) ∨
    ∀ r, (script.submissions r).2.2 = true → ∃ e ∈ script.events, e.replica = some r

/-- **The plain quorum rule**: there is a first event, before any cancellation, after which a quorum
is valid, up to `v`. -/
def Succeeds (call : QuorumCall) (quorumSize : Nat) (v : Time) : Prop :=
  script.check.2 = false ∧ ∃ before e after, script.events = before ++ e :: after ∧
    (∀ x ∈ before ++ [e], x.stopped = false) ∧
    QuorumValid call quorumSize script.start (before ++ [e]) e.now v ∧
    ∀ before' e' after', before = before' ++ e' :: after' →
      ∀ v', ¬ QuorumValid call quorumSize script.start (before' ++ [e']) e'.now v'

/-- The steps of the call. -/
def acts (j : Fin m) : List (Time × LeaseAct n m) :=
  (List.finRange n).map (fun r =>
    ((script.submissions r).1, .submit (script.submissions r).2.1 (script.submissions r).2.2)) ++
  (script.check.1, .check script.check.2) :: script.events.flatMap (Event.acts j)

end Script

/-! ## Runs -/

/-- The step is of a background goroutine. -/
def LeaseAct.isTask : LeaseAct n m → Bool
  | .task _ _ => true
  | _ => false

/-- The steps of the public calls. -/
def calls (σ : List (Time × LeaseAct n m)) : List (Time × LeaseAct n m) :=
  σ.filter fun x => !x.2.isTask

/-- A step, if the code takes it. -/
def Lease.attempt (quorumSize : Nat) (l : Lease n m) (x : Time × LeaseAct n m) : Lease n m :=
  (l.step quorumSize x.1 x.2).getD l

/-- The lease after a list of steps, of which those that cannot be taken are skipped. -/
def Lease.run (quorumSize : Nat) (l : Lease n m) (σ : List (Time × LeaseAct n m)) : Lease n m :=
  σ.foldl (Lease.attempt quorumSize) l

/-- What a call can see of the lease: where it stands, `validUntil`, and that slot `j` is free. -/
structure Lease.At (l : Lease n m) (j : Fin m) (main : Main n) (validUntil : Time) : Prop where
  main : l.main = main
  validUntil : l.validUntil = validUntil
  idle : l.tasks j = .idle

namespace Lease

variable {l : Lease n m} {quorumSize : Nat} {now : Time} {a : LeaseAct n m} {j : Fin m}
  {main main' : Main n} {v : Time} {σ : List (Time × LeaseAct n m)}

theorem attempt_none (h : l.move quorumSize now a = none) : l.attempt quorumSize (now, a) = l := by
  rw [attempt, step, h]
  rfl

theorem attempt_some {l' : Lease n m} (h : l.move quorumSize now a = some l') :
    l.attempt quorumSize (now, a) = l'.record (l.outgoing a) := by
  rw [attempt, step, h]
  rfl

theorem run_cons (x : Time × LeaseAct n m) (σ : List (Time × LeaseAct n m)) :
    l.run quorumSize (x :: σ) = (l.attempt quorumSize x).run quorumSize σ := rfl

theorem run_append (σ τ : List (Time × LeaseAct n m)) :
    l.run quorumSize (σ ++ τ) = (l.run quorumSize σ).run quorumSize τ := List.foldl_append

theorem taskStep_idle {i : Fin m} {b : TaskAct n} (h : l.tasks i = .idle) :
    l.taskStep now i b = none := by
  cases b with
  | go ok => simp only [taskStep, taskGo, h]
  | submit requestID accepted => simp only [taskStep, taskSubmit, h]
  | receive r response mark => simp only [taskStep, taskReceive, h]
  | abandon => simp only [taskStep, taskAbandon, h]

/-- What a background goroutine leaves alone: the call, `validUntil`, and the other slots. -/
structure Beside (j : Fin m) (l l' : Lease n m) : Prop where
  main : l'.main = l.main
  validUntil : l'.validUntil = l.validUntil
  lifecycle : l'.lifecycle = l.lifecycle
  idle : l.tasks j = .idle → l'.tasks j = .idle

theorem attempt_task (l : Lease n m) (quorumSize : Nat) (now : Time) (i j : Fin m)
    (b : TaskAct n) : Beside j l (l.attempt quorumSize (now, .task i b)) := by
  cases hstep : l.taskStep now i b with
  | none =>
    rw [attempt_none (show l.move quorumSize now (.task i b) = none from hstep)]
    exact ⟨rfl, rfl, rfl, id⟩
  | some l' =>
    rw [attempt_some (show l.move quorumSize now (.task i b) = some l' from hstep)]
    have hslot : ∀ {l₁ : Lease n m} {task : Task n}, l₁.tasks = l.tasks → l.tasks j = .idle →
        (l₁.setTask i task).tasks j = .idle := by
      intro l₁ task htasks hj
      have hne : j ≠ i := by
        rintro rfl
        rw [taskStep_idle hj] at hstep
        cases hstep
      rw [setTask, htasks]
      exact (Function.update_of_ne hne _ _).trans hj
    have hbeside : Beside j l l' := by
      cases taskStep_cases hstep with
      | quiet | begun | submitted | ended => exact ⟨rfl, rfl, rfl, hslot rfl⟩
    obtain ⟨h1, h2, h3, h4⟩ := hbeside
    exact ⟨(record_main _).trans h1, (record_validUntil _).trans h2, (record_lifecycle _).trans h3,
      fun hj => (congrFun (record_tasks _) j).trans (h4 hj)⟩

/-- **Background goroutines do not concern a call.** -/
theorem run_tasks (l : Lease n m) (quorumSize : Nat) (j : Fin m)
    {σ : List (Time × LeaseAct n m)} (h : calls σ = []) : Beside j l (l.run quorumSize σ) := by
  induction σ generalizing l with
  | nil => exact ⟨rfl, rfl, rfl, id⟩
  | cons x σ ih =>
    obtain ⟨now, a⟩ := x
    cases a with
    | task i b =>
      obtain ⟨h1, h2, h3, h4⟩ := attempt_task l quorumSize now i j b
      obtain ⟨h1', h2', h3', h4'⟩ := ih (l.attempt quorumSize (now, .task i b)) h
      exact ⟨h1'.trans h1, h2'.trans h2, h3'.trans h3, fun hj => h4' (h4 hj)⟩
    | _ => cases h

/-- The next step of the call, after what the background did. -/
theorem run_calls {x : Time × LeaseAct n m} {rest : List (Time × LeaseAct n m)}
    (l : Lease n m) (quorumSize : Nat) (j : Fin m) (h : calls σ = x :: rest) :
    ∃ l₁ τ, Beside j l l₁ ∧ calls τ = rest ∧
      l.run quorumSize σ = (l₁.attempt quorumSize x).run quorumSize τ := by
  obtain ⟨before, after, rfl, hbefore, -, hafter⟩ := List.filter_eq_cons_iff.mp h
  refine ⟨l.run quorumSize before, after, run_tasks l quorumSize j ?_, hafter, ?_⟩
  · exact List.filter_eq_nil_iff.mpr hbefore
  · rw [run_append, run_cons]

theorem At.beside {l' : Lease n m} (h : l.At j main v) (hb : Beside j l l') : l'.At j main v :=
  ⟨hb.main.trans h.main, hb.validUntil.trans h.validUntil, hb.idle h.idle⟩

theorem At.record (h : l.At j main v) (request : Option (Request n)) :
    (l.record request).At j main v :=
  ⟨(record_main _).trans h.main, (record_validUntil _).trans h.validUntil,
    (congrFun (record_tasks _) j).trans h.idle⟩

theorem At.setMain (h : l.At j main v) (main' : Main n) : (l.setMain main').At j main' v :=
  ⟨rfl, h.validUntil, h.idle⟩

theorem At.confirmAcquire (h : l.At j main v) (now later : Time) (r : Fin n) (c : Option Time) :
    (l.confirmAcquire now later r c).At j main v := by
  obtain ⟨confirmedUntil, hc⟩ := l.confirmAcquire_eq now later r c
  rw [hc]
  exact ⟨h.main, h.validUntil, h.idle⟩

theorem At.clearConfirmed (h : l.At j main v) (r : Fin n) :
    (l.clearConfirmed r).At j main v := by
  obtain ⟨confirmedUntil, hc⟩ := l.clearConfirmed_eq r
  rw [hc]
  exact ⟨h.main, h.validUntil, h.idle⟩

theorem At.confirmRenew (h : l.At j main v) (now later : Time) (r : Fin n) (c : Option Time) :
    (l.confirmRenew now later r c).At j main v := by
  obtain ⟨confirmedUntil, hc⟩ := l.confirmRenew_eq now later r c
  rw [hc]
  exact ⟨h.main, h.validUntil, h.idle⟩

theorem At.of_move {l' : Lease n m} (h : l'.At j main v) (hm : l.move quorumSize now a = some l') :
    (l.attempt quorumSize (now, a)).At j main v := by
  rw [attempt_some hm]
  exact h.record _

end Lease

/-! ## The steps of a call -/

namespace QuorumCall

variable (call : QuorumCall)

/-- The submission loop. -/
def submitting (start : Time) (ttlMS : Nat) (todo : List (Fin n)) (waits : Waits n) : Main n :=
  match call with
  | .acquire => .acquireSubmit start todo waits
  | .renew => .renewSubmit start ttlMS todo waits

/-- The collecting loop. -/
def collecting (start : Time) (waits : Waits n) (candidates : Candidates n) : Main n :=
  match call with
  | .acquire => .acquireCollect start waits candidates
  | .renew => .renewCollect start waits candidates

/-- A quorum was found. -/
def quorum (start : Time) (waits : Waits n) (validUntil : Time) : Main n :=
  match call with
  | .acquire => .acquireQuorum start waits validUntil
  | .renew => .renewQuorum start waits validUntil

/-- The call has failed, and is about to return an error. -/
def lost (start : Time) (waits : Waits n) : Main n :=
  match call with
  | .acquire => .cleanup (List.finRange n)
  | .renew => .renewFailed start waits

/-- How a successful call ends. -/
def outcome : Outcome :=
  match call with
  | .acquire => .acquired
  | .renew => .renewed

/-- What a quorum time does to `validUntil`. -/
def extend (validUntil v : Time) : Time :=
  match call with
  | .acquire => v
  | .renew => max validUntil v

/-- The candidate that the loop body computes. -/
def candidate (start : Time) (response : Option Response) : Option Time :=
  match call with
  | .acquire => acquireCandidate start response
  | .renew => renewCandidate start response

end QuorumCall

namespace Lease

variable {l : Lease n m} {quorumSize : Nat} {now : Time} {j : Fin m} {v : Time}
  {call : QuorumCall} {start w : Time} {ttlMS : Nat} {waits : Waits n} {candidates : Candidates n}

theorem At.submit {r : Fin n} {todo : List (Fin n)} {requestID : Nat} {accepted : Bool}
    (h : l.At j (call.submitting start ttlMS (r :: todo) waits) v) :
    (l.attempt quorumSize (now, .submit requestID accepted)).At j
      (call.submitting start ttlMS todo (waits.submit r requestID accepted)) v := by
  cases call with
  | acquire =>
    have hm : l.main = .acquireSubmit start (r :: todo) waits := h.main
    exact (h.setMain _).of_move (by simp only [move, Lease.submit, hm]; rfl)
  | renew =>
    have hm : l.main = .renewSubmit start ttlMS (r :: todo) waits := h.main
    cases accepted with
    | true => exact (h.setMain _).of_move (by simp only [move, Lease.submit, hm]; rfl)
    | false =>
      exact ((h.clearConfirmed r).setMain _).of_move (by simp only [move, Lease.submit, hm]; rfl)

theorem At.check {canceled : Bool} (h : l.At j (call.submitting start ttlMS [] waits) v) :
    (l.attempt quorumSize (now, .check canceled)).At j
      (if canceled then call.lost start waits else call.collecting start waits fun _ => none) v := by
  cases call with
  | acquire =>
    have hm : l.main = .acquireSubmit start [] waits := h.main
    exact (h.setMain _).of_move (by simp only [move, Lease.check, hm]; rfl)
  | renew =>
    have hm : l.main = .renewSubmit start ttlMS [] waits := h.main
    exact (h.setMain _).of_move (by simp only [move, Lease.check, hm]; rfl)

theorem At.giveUp (h : l.At j (call.collecting start waits candidates) v) :
    (l.attempt quorumSize (now, .giveUp)).At j (call.lost start waits) v := by
  cases call with
  | acquire =>
    have hm : l.main = .acquireCollect start waits candidates := h.main
    exact (h.setMain _).of_move (by simp only [move, Lease.giveUp, hm]; rfl)
  | renew =>
    have hm : l.main = .renewCollect start waits candidates := h.main
    exact (h.setMain _).of_move (by simp only [move, Lease.giveUp, hm]; rfl)

/-- Where the loop body leads. -/
def Verdict.main (call : QuorumCall) (start : Time) (waits : Waits n) (candidates : Candidates n) :
    Verdict → Main n
  | .quorum validUntil => call.quorum start waits validUntil
  | .collecting => call.collecting start waits candidates
  | .hopeless => call.lost start waits

theorem At.receive {r : Fin n} {response : Option Response} {mark pause : Time}
    (h : l.At j (call.collecting start waits candidates) v) (ha : waits.Answered r response)
    {candidates' : Candidates n} (hc : (call.candidate start response).elim candidates
      (fun c => Function.update candidates r (some c)) = candidates') :
    (l.attempt quorumSize (now, .receive r response mark pause)).At j
      (Verdict.main call start (waits.consume r) candidates'
        (verdict quorumSize now (now + mark + pause) (call.candidate start response).isSome candidates'
          (waits.consume r).count)) v := by
  subst hc
  cases call with
  | acquire =>
    have hm : l.main = .acquireCollect start waits candidates := h.main
    refine ((h.confirmAcquire now (now + mark) r (acquireCandidate start response)).setMain _).of_move ?_
    simp only [move, Lease.receive, hm, if_pos ha, QuorumCall.candidate]
    cases verdict quorumSize now (now + mark + pause) _ _ _ <;> rfl
  | renew =>
    have hm : l.main = .renewCollect start waits candidates := h.main
    refine ((h.confirmRenew now (now + mark) r (renewCandidate start response)).setMain _).of_move ?_
    simp only [move, Lease.receive, hm, if_pos ha, QuorumCall.candidate]
    cases verdict quorumSize now (now + mark + pause) _ _ _ <;> rfl

theorem At.commit_canceled (h : l.At j (call.quorum start waits w) v) :
    (l.attempt quorumSize (now, .commit true j)).At j (call.lost start waits) v := by
  cases call with
  | acquire =>
    have hm : l.main = .acquireQuorum start waits w := h.main
    exact (h.setMain _).of_move (by simp only [move, Lease.commit, hm]; rfl)
  | renew =>
    have hm : l.main = .renewQuorum start waits w := h.main
    exact (h.setMain _).of_move (by simp only [move, Lease.commit, hm]; rfl)

/-- The call returns. -/
structure Returned (l : Lease n m) (outcome : Outcome) (validUntil : Time) : Prop where
  main : l.main = .returned outcome
  validUntil : l.validUntil = validUntil

theorem Returned.beside {l' : Lease n m} {o : Outcome} (h : l.Returned o v) (hb : Beside j l l') :
    l'.Returned o v :=
  ⟨hb.main.trans h.main, hb.validUntil.trans h.validUntil⟩

theorem At.commit (h : l.At j (call.quorum start waits w) v) :
    (l.attempt quorumSize (now, .commit false j)).Returned call.outcome (call.extend v w) := by
  have hreturned : ∀ {l' : Lease n m}, l.move quorumSize now (.commit false j) = some l' →
      l'.main = .returned call.outcome → l'.validUntil = call.extend v w →
      (l.attempt quorumSize (now, .commit false j)).Returned call.outcome (call.extend v w) := by
    intro l' hmove hmain hvalid
    rw [attempt_some hmove]
    exact ⟨(record_main _).trans hmain, (record_validUntil _).trans hvalid⟩
  cases call with
  | acquire =>
    have hm : l.main = .acquireQuorum start waits w := h.main
    have hmove : l.move quorumSize now (.commit false j) =
        some (({ l with validUntil := w, main := .returned .acquired } : Lease n m).setTask j
          (.collectAcquire start waits)) := by
      simp [move, Lease.commit, hm, spawn, h.idle]
    exact hreturned hmove rfl rfl
  | renew =>
    have hm : l.main = .renewQuorum start waits w := h.main
    have hmove : l.move quorumSize now (.commit false j) =
        some (({ l with
          validUntil := max l.validUntil w
          main := .returned .renewed } : Lease n m).setTask j (.collectRenew start waits)) := by
      simp [move, Lease.commit, hm, spawn, h.idle]
    exact hreturned hmove rfl (congrArg (max · w) h.validUntil)

/-- Only a quorum is committed. -/
theorem At.commit_collecting {canceled : Bool} (h : l.At j (call.collecting start waits candidates) v) :
    (l.attempt quorumSize (now, .commit canceled j)).At j (call.collecting start waits candidates)
      v := by
  have hnone : l.move quorumSize now (.commit canceled j) = none := by
    cases call with
    | acquire =>
      have hm : l.main = .acquireCollect start waits candidates := h.main
      simp only [move, Lease.commit, hm]
    | renew =>
      have hm : l.main = .renewCollect start waits candidates := h.main
      simp only [move, Lease.commit, hm]
  rw [attempt_none hnone]
  exact h

/-- The call is over, or about to return an error. -/
def Main.Over : Main n → Prop
  | .returned _ | .cleanup _ | .renewFailed _ _ => True
  | _ => False

theorem lost_over (call : QuorumCall) (start : Time) (waits : Waits n) :
    Main.Over (call.lost start waits) := by
  cases call <;> trivial

/-- What is over takes no notice of further events. -/
theorem attempt_over (h : Main.Over l.main) {e : Event n} {x : Time × LeaseAct n m}
    (hx : x ∈ e.acts j) : l.attempt quorumSize x = l := by
  have hnone : ∀ {now : Time} {a : LeaseAct n m},
      (∃ r response mark pause, a = .receive r response mark pause) ∨ (∃ c, a = .commit c j) ∨ a = .giveUp →
      l.attempt quorumSize (now, a) = l := by
    intro now a ha
    refine attempt_none ?_
    cases hm : l.main with
    | returned o | cleanup todo | renewFailed start waits =>
      rcases ha with ⟨r, response, mark, pause, rfl⟩ | ⟨c, rfl⟩ | rfl
      · simp only [move, Lease.receive, hm]
      · simp only [move, Lease.commit, hm]
      · simp only [move, Lease.giveUp, hm]
    | _ => rw [hm] at h; cases h
  cases e with
  | answer r response now mark pause c =>
    rcases List.mem_cons.mp hx with rfl | hx
    · exact hnone (Or.inl ⟨r, response, mark, pause, rfl⟩)
    · rw [List.mem_singleton.mp hx]
      exact hnone (Or.inr (Or.inl ⟨c, rfl⟩))
  | canceled now =>
    rw [List.mem_singleton.mp hx]
    exact hnone (Or.inr (Or.inr rfl))

theorem run_over {events : List (Event n)} {l : Lease n m} (h : Main.Over l.main)
    {σ : List (Time × LeaseAct n m)} (hσ : calls σ = events.flatMap (Event.acts j)) :
    Beside j l (l.run quorumSize σ) := by
  have hacts : ∀ x ∈ events.flatMap (Event.acts j), ∃ e : Event n, x ∈ e.acts j := by
    intro x hx
    obtain ⟨e, -, hx⟩ := List.mem_flatMap.mp hx
    exact ⟨e, hx⟩
  generalize events.flatMap (Event.acts j) = rest at hσ hacts
  induction rest generalizing l σ with
  | nil => exact run_tasks l quorumSize j hσ
  | cons x rest ih =>
    obtain ⟨l₁, τ, hb, hτ, hrun⟩ := run_calls l quorumSize j hσ
    obtain ⟨e, hx⟩ := hacts x List.mem_cons_self
    have hover : Main.Over l₁.main := hb.main ▸ h
    rw [hrun, attempt_over hover hx]
    obtain ⟨h1, h2, h3, h4⟩ := ih hover hτ fun y hy => hacts y (List.mem_cons_of_mem x hy)
    exact ⟨h1.trans hb.main, h2.trans hb.validUntil, h3.trans hb.lifecycle,
      fun hj => h4 (hb.idle hj)⟩

end Lease

/-! ## The rule, event by event -/

section Rule

variable {call : QuorumCall} {quorumSize : Nat} {start v : Time} {e : Event n}
  {before after events : List (Event n)}

/-- The rule for the events `after`, when those `before` have brought no quorum. -/
def SucceedsFrom (call : QuorumCall) (quorumSize : Nat) (start : Time) (v : Time) :
    List (Event n) → List (Event n) → Prop
  | _, [] => False
  | before, e :: after =>
    e.stopped = false ∧ (QuorumValid call quorumSize start (before ++ [e]) e.now v ∨
      (∀ v', ¬ QuorumValid call quorumSize start (before ++ [e]) e.now v') ∧
        SucceedsFrom call quorumSize start v (before ++ [e]) after)

/-- Where the first quorum is. -/
theorem succeedsFrom_iff : SucceedsFrom call quorumSize start v before events ↔
    ∃ between e after, events = between ++ e :: after ∧
      (∀ x ∈ between ++ [e], x.stopped = false) ∧
      QuorumValid call quorumSize start (before ++ between ++ [e]) e.now v ∧
      ∀ between' e' after', between = between' ++ e' :: after' →
        ∀ v', ¬ QuorumValid call quorumSize start (before ++ between' ++ [e']) e'.now v' := by
  induction events generalizing before with
  | nil => simp [SucceedsFrom]
  | cons x events ih =>
    rw [SucceedsFrom]
    constructor
    · rintro ⟨hx, hv | ⟨hno, hlater⟩⟩
      · exact ⟨[], x, events, rfl, by simpa using hx, by simpa using hv, by simp⟩
      · obtain ⟨between, e, after, rfl, hstopped, hvalid, hfirst⟩ := ih.mp hlater
        refine ⟨x :: between, e, after, rfl, ?_, by simpa using hvalid, ?_⟩
        · rw [List.cons_append]
          exact List.forall_mem_cons.mpr ⟨hx, hstopped⟩
        · intro between' e' after' heq v'
          cases between' with
          | nil =>
            cases heq
            simpa using hno v'
          | cons y between' =>
            cases heq
            simpa using hfirst between' e' after' rfl v'
    · rintro ⟨between, e, after, heq, hstopped, hvalid, hfirst⟩
      cases between with
      | nil =>
        cases heq
        exact ⟨hstopped x (by simp), Or.inl (by simpa using hvalid)⟩
      | cons y between =>
        cases heq
        refine ⟨hstopped x (by simp), Or.inr ⟨?_, ih.mpr ⟨between, e, after, rfl, ?_, ?_, ?_⟩⟩⟩
        · exact fun v' => by simpa using hfirst [] x between rfl v'
        · exact fun z hz => hstopped z (List.mem_cons_of_mem x hz)
        · simpa using hvalid
        · exact fun between' e' after' heq v' => by
            simpa using hfirst (x :: between') e' after' (by rw [heq]; rfl) v'

theorem Script.succeeds_iff (script : Script n) : script.Succeeds call quorumSize v ↔
    script.check.2 = false ∧
      SucceedsFrom call quorumSize script.start v [] script.events := by
  rw [succeedsFrom_iff]
  rfl

theorem QuorumValid.unique {now w : Time} (h : QuorumValid call quorumSize start events now v)
    (h' : QuorumValid call quorumSize start events now w) : v = w := h.1.unique h'.1

theorem SucceedsFrom.unique {w : Time} (h : SucceedsFrom call quorumSize start v before events)
    (h' : SucceedsFrom call quorumSize start w before events) : v = w := by
  induction events generalizing before with
  | nil => cases h
  | cons e events ih =>
    obtain ⟨-, hv | ⟨hno, hv⟩⟩ := h
    · obtain ⟨-, hw | ⟨hno, -⟩⟩ := h'
      · exact hv.unique hw
      · exact absurd hv (hno v)
    · obtain ⟨-, hw | ⟨-, hw⟩⟩ := h'
      · exact absurd hw (hno w)
      · exact ih hv hw

theorem Script.Succeeds.unique {script : Script n} {w : Time}
    (h : script.Succeeds call quorumSize v) (h' : script.Succeeds call quorumSize w) : v = w :=
  (script.succeeds_iff.mp h).2.unique (script.succeeds_iff.mp h').2

/-- The candidate of an event is the one that the loop body computes. -/
theorem Event.candidate_eq {r : Fin n} {response : Option Response} {now pause : Time} {c : Bool} :
    (Event.answer r response now mark pause c).candidate call start r = call.candidate start response := by
  cases response with
  | none => cases call <;> rfl
  | some response =>
    have htime : (if 100 < response.ttlMS ∧ response.ttlMS ≤ 5000 then
        start + (response.ttlMS - 100) * millisecond else start) =
        candidateValidUntil start response.ttlMS := by
      unfold candidateValidUntil safetyMarginMS maxTTLMS
      split_ifs <;> first | rfl | omega
    rw [Event.candidate, htime]
    cases call with
    | acquire =>
      have hiff : (r = r ∧ QuorumCall.acquire.Answers response) ↔
          (response.operation = ClientOperation.acquire ∧ isSuccessfulAcquire response.status) := by
        simp [QuorumCall.Answers, isSuccessfulAcquire]
      exact if_congr hiff rfl rfl
    | renew =>
      have hiff : (r = r ∧ QuorumCall.renew.Answers response) ↔
          (response.operation = ClientOperation.renew ∧ response.status = LeaseStatus.ok) := by
        simp [QuorumCall.Answers]
      exact if_congr hiff rfl rfl

theorem Event.candidate_of_ne {r : Fin n} (h : r ∉ e.replica) : e.candidate call start r = none := by
  cases e with
  | canceled now => rfl
  | answer r' response now pause c =>
    cases response with
    | none => rfl
    | some response =>
      refine if_neg fun hr => h ?_
      rw [hr.1]
      rfl

theorem candidatesOf_append (events events' : List (Event n)) (r : Fin n) :
    candidatesOf call start (events ++ events') r =
      (candidatesOf call start events r).or (candidatesOf call start events' r) :=
  List.findSome?_append

theorem candidatesOf_eq_none {r : Fin n} (h : r ∉ events.filterMap Event.replica) :
    candidatesOf call start events r = none := by
  rw [candidatesOf, List.findSome?_eq_none_iff]
  exact fun e he => Event.candidate_of_ne fun hr => h (List.mem_filterMap.mpr ⟨e, he, hr⟩)

/-- A response adds the candidate of its replica. -/
theorem candidatesOf_answer {r : Fin n} {response : Option Response} {now pause : Time} {c : Bool}
    (hr : r ∉ before.filterMap Event.replica) :
    (call.candidate start response).elim (candidatesOf call start before)
        (fun t => Function.update (candidatesOf call start before) r (some t)) =
      candidatesOf call start (before ++ [.answer r response now mark pause c]) := by
  have hself : candidatesOf call start [Event.answer r response now mark pause c] r =
      call.candidate start response :=
    List.findSome?_singleton.trans Event.candidate_eq
  have hother : ∀ r', r' ≠ r →
      candidatesOf call start [Event.answer r response now mark pause c] r' = none := by
    intro r' hne
    refine candidatesOf_eq_none ?_
    simpa [Event.replica] using hne
  funext r'
  rw [candidatesOf_append]
  by_cases hne : r' = r
  · subst hne
    rw [candidatesOf_eq_none hr, hself, Option.none_or]
    cases call.candidate start response with
    | none => exact candidatesOf_eq_none hr
    | some t => exact Function.update_self _ _ _
  · rw [hother r' hne, Option.or_none]
    cases call.candidate start response with
    | none => rfl
    | some t => exact Function.update_of_ne hne _ _

/-- With every later event stopped, there is no success. -/
theorem not_succeedsFrom_of_stopped (h : ∀ x ∈ events, x.stopped = true) :
    ¬ SucceedsFrom call quorumSize start v before events := by
  cases events with
  | nil => exact id
  | cons e events =>
    rintro ⟨he, -⟩
    rw [h e List.mem_cons_self] at he
    cases he

/-- A success is a valid quorum after one of the events. -/
theorem SucceedsFrom.quorumValid (h : SucceedsFrom call quorumSize start v before events) :
    ∃ between e after, events = between ++ e :: after ∧
      QuorumValid call quorumSize start (before ++ (between ++ [e])) e.now v := by
  obtain ⟨between, e, after, heq, -, hvalid, -⟩ := succeedsFrom_iff.mp h
  exact ⟨between, e, after, heq, by rwa [List.append_assoc] at hvalid⟩

end Rule

/-! ## The loop -/

section Loop

variable {call : QuorumCall} {quorumSize : Nat} {j : Fin m} {script : Script n}
  {before after : List (Event n)} {v now : Time}

/-- The requests that are not answered yet. -/
def Script.waitsAfter (script : Script n) (before : List (Event n)) : Waits n := fun r =>
  if (script.submissions r).2.2 = true ∧ r ∉ before.filterMap Event.replica then
    some (script.submissions r).2.1
  else none

theorem Script.waitsAfter_answer {r : Fin n} {response : Option Response} {now pause : Time}
    {c : Bool} : (script.waitsAfter before).consume r =
      script.waitsAfter (before ++ [.answer r response now mark pause c]) := by
  funext r'
  unfold Waits.consume Script.waitsAfter
  by_cases hr : r' = r
  · subst hr
    rw [Function.update_self, if_neg]
    simp [Event.replica]
  · rw [Function.update_of_ne hr]
    refine if_congr ?_ rfl rfl
    simp [Event.replica, hr]

theorem Script.Possible.answered (hp : script.Possible) {r : Fin n} {response : Option Response}
    {now pause : Time} {c : Bool}
    (hevents : script.events = before ++ .answer r response now mark pause c :: after) :
    r ∉ before.filterMap Event.replica ∧ (script.waitsAfter before).Answered r response := by
  have hin : Event.answer r response now mark pause c ∈ script.events := by
    rw [hevents]
    simp
  have hnot : r ∉ before.filterMap Event.replica := by
    have honce := hp.once
    rw [hevents, List.filterMap_append, List.nodup_append] at honce
    intro hr
    exact honce.2.2 r hr r (by simp [Event.replica]) rfl
  refine ⟨hnot, (script.submissions r).2.1, if_pos ⟨hp.accepted _ hin r rfl, hnot⟩, ?_⟩
  exact hp.requestID _ hin r rfl

theorem Script.Possible.pending (hp : script.Possible) {more rest : List (Event n)}
    (hevents : script.events = before ++ (more ++ rest)) :
    ∀ r ∈ more.filterMap Event.replica, (script.waitsAfter before r).isSome := by
  intro r hr
  obtain ⟨e, he, hre⟩ := List.mem_filterMap.mp hr
  have hin : e ∈ script.events := by
    rw [hevents]
    exact List.mem_append_right _ (List.mem_append_left _ he)
  have hnot : r ∉ before.filterMap Event.replica := by
    have honce := hp.once
    rw [hevents, List.filterMap_append, List.filterMap_append, List.nodup_append] at honce
    exact fun hb => honce.2.2 r hb r (List.mem_append_left _ hr) rfl
  rw [Script.waitsAfter, if_pos ⟨hp.accepted e hin r hre, hnot⟩]
  rfl

/-- **Giving up early loses nothing**: when the candidates that are still valid and the answers that
are still due are too few for a quorum, no later answers make one. -/
theorem not_quorumValid_of_hopeless {t : Time} {more : List (Event n)}
    (h : acquireQuorumStillPossible (candidatesOf call script.start before)
      (script.waitsAfter before).count t quorumSize = false) (hnow : t ≤ now)
    (hmore : ∀ r ∈ more.filterMap Event.replica, (script.waitsAfter before r).isSome) :
    ¬ QuorumValid call quorumSize script.start (before ++ more) now v := by
  rintro ⟨⟨hcount, -⟩, hlt⟩
  refine Bool.eq_false_iff.mp h (decide_eq_true ?_)
  rw [List.countP_filterMap] at hcount
  refine hcount.trans (le_trans (List.countP_mono_left fun r _ hr => ?_) (Lib.Family.countP_or_le _ _ _))
  rw [Bool.or_eq_true]
  rw [candidatesOf_append] at hr
  cases hc : candidatesOf call script.start before r with
  | some c =>
    left
    rw [hc] at hr
    simp at hr ⊢
    exact lt_of_le_of_lt hnow (lt_of_lt_of_le hlt hr)
  | none =>
    right
    refine hmore r ?_
    by_contra hnone
    rw [hc, candidatesOf_eq_none hnone] at hr
    cases hr

/-- What the verdict says when it is no quorum. -/
theorem not_quorum_of_verdict {candidates : Candidates n} {later : Time} {remaining : Nat}
    (hq : 0 < quorumSize)
    (h : ∀ w, verdict quorumSize now later true candidates remaining ≠ .quorum w)
    (hk : KthLargest ((List.finRange n).filterMap candidates) quorumSize v) : v ≤ now := by
  by_contra hlt
  refine h v ?_
  rw [verdict, (bestAcquireQuorum_iff hq).mpr hk, Option.filter_some, if_pos]
  simpa using hlt

theorem verdict_hopeless {candidates : Candidates n} {later : Time} {successful : Bool}
    {remaining : Nat}
    (h : verdict quorumSize now later successful candidates remaining = .hopeless) :
    acquireQuorumStillPossible candidates remaining later quorumSize = false := by
  unfold verdict at h
  split at h
  · cases h
  · split_ifs at h with hpossible
    exact Bool.eq_false_iff.mpr hpossible

/-- Where the loop is after an answer, the last of `events`, with what it then knows. -/
inductive BodyEnd (call : QuorumCall) (quorumSize : Nat) (j : Fin m) (script : Script n) (v : Time)
    (events : List (Event n)) (now later : Time) (canceled : Bool) (l : Lease n m) : Prop
  | won (w : Time) (hc : canceled = false)
      (hw : QuorumValid call quorumSize script.start events now w)
      (h : l.Returned call.outcome (call.extend v w))
  | stopped (hc : canceled = true) (h : l.At j (call.lost script.start (script.waitsAfter events)) v)
  | hopeless
      (hno : ∀ w, KthLargest ((List.finRange n).filterMap (candidatesOf call script.start events))
        quorumSize w → w ≤ now)
      (hp : acquireQuorumStillPossible (candidatesOf call script.start events)
        (script.waitsAfter events).count later quorumSize = false)
      (h : l.At j (call.lost script.start (script.waitsAfter events)) v)
  | collecting
      (hno : ∀ w, KthLargest ((List.finRange n).filterMap (candidatesOf call script.start events))
        quorumSize w → w ≤ now)
      (h : l.At j (call.collecting script.start (script.waitsAfter events)
        (candidatesOf call script.start events)) v)

/-- An answer that brings no quorum: either it is a candidate that is not enough, or the candidates
are those from before. -/
theorem no_quorum_of_answer (hq : 0 < quorumSize) {t later : Time} (ht : t ≤ now) {r : Fin n}
    {response : Option Response} {mark pause : Time} {c : Bool} {remaining : Nat}
    (hr : r ∉ before.filterMap Event.replica)
    (hnone : ∀ w, KthLargest ((List.finRange n).filterMap (candidatesOf call script.start before))
      quorumSize w → w ≤ t)
    (hverdict : ∀ w, verdict quorumSize now later (call.candidate script.start response).isSome
      (candidatesOf call script.start (before ++ [.answer r response now mark pause c])) remaining ≠
      .quorum w) :
    ∀ w, KthLargest ((List.finRange n).filterMap
      (candidatesOf call script.start (before ++ [.answer r response now mark pause c]))) quorumSize w →
      w ≤ now := by
  intro w hk
  cases hc : call.candidate script.start response with
  | some candidate =>
    rw [hc] at hverdict
    exact not_quorum_of_verdict hq hverdict hk
  | none =>
    have hsame : (call.candidate script.start response).elim _ _ =
        candidatesOf call script.start (before ++ [.answer r response now mark pause c]) :=
      candidatesOf_answer hr
    rw [hc, Option.elim_none] at hsame
    rw [← hsame] at hk
    exact (hnone w hk).trans ht

/-- **The body of the loop**, and the return that may follow it. -/
theorem Script.body (hq : 0 < quorumSize) (hp : script.Possible) {t : Time} {r : Fin n}
    {response : Option Response} {mark pause : Time} {c : Bool}
    (hevents : script.events = before ++ .answer r response now mark pause c :: after) (ht : t ≤ now)
    (hnone : ∀ w, KthLargest ((List.finRange n).filterMap (candidatesOf call script.start before))
      quorumSize w → w ≤ t) {l : Lease n m}
    (h : l.At j (call.collecting script.start (script.waitsAfter before)
      (candidatesOf call script.start before)) v)
    {σ rest : List (Time × LeaseAct n m)}
    (hσ : calls σ = (now, .receive r response mark pause) :: (now, .commit c j) :: rest) :
    ∃ l' τ, calls τ = rest ∧ l.run quorumSize σ = l'.run quorumSize τ ∧
      BodyEnd call quorumSize j script v (before ++ [.answer r response now mark pause c]) now
        (now + mark + pause) c l' := by
  obtain ⟨hr, hanswered⟩ := hp.answered hevents
  obtain ⟨l₁, τ₁, hb₁, hτ₁, hrun₁⟩ := Lease.run_calls l quorumSize j hσ
  obtain ⟨l₂, τ₂, hb₂, hτ₂, hrun₂⟩ := Lease.run_calls
    (l₁.attempt quorumSize (now, .receive r response mark pause)) quorumSize j hτ₁
  refine ⟨l₂.attempt quorumSize (now, .commit c j), τ₂, hτ₂, hrun₁.trans hrun₂, ?_⟩
  have hwaits : (script.waitsAfter before).consume r =
      script.waitsAfter (before ++ [.answer r response now mark pause c]) := Script.waitsAfter_answer
  have hcandidates : (call.candidate script.start response).elim _ _ =
      candidatesOf call script.start (before ++ [.answer r response now mark pause c]) :=
    candidatesOf_answer hr
  have hreceived : l₂.At j _ v := ((h.beside hb₁).receive hanswered hcandidates).beside hb₂
  rw [hwaits] at hreceived
  cases hv : verdict quorumSize now (now + mark + pause) (call.candidate script.start response).isSome
    (candidatesOf call script.start (before ++ [.answer r response now mark pause c]))
    (script.waitsAfter (before ++ [.answer r response now mark pause c])).count with
  | quorum w =>
    rw [hv] at hreceived
    obtain ⟨hbest, hlt⟩ := verdict_quorum hv
    cases c with
    | false => exact .won w rfl ⟨(bestAcquireQuorum_iff hq).mp hbest, hlt⟩ hreceived.commit
    | true => exact .stopped rfl hreceived.commit_canceled
  | collecting =>
    rw [hv] at hreceived
    exact .collecting (no_quorum_of_answer hq ht hr hnone (by rw [hv]; nofun))
      hreceived.commit_collecting
  | hopeless =>
    rw [hv] at hreceived
    refine .hopeless (no_quorum_of_answer hq ht hr hnone (by rw [hv]; nofun))
      (verdict_hopeless hv) ?_
    have hover : Lease.Main.Over l₂.main := by
      rw [hreceived.main]
      exact Lease.lost_over call script.start _
    have hact : (now, LeaseAct.commit c j) ∈ (Event.answer r response now mark pause c).acts j :=
      List.mem_cons_of_mem _ List.mem_cons_self
    rw [Lease.attempt_over hover hact]
    exact hreceived

/-- How the loop of a call ends: it returns, it fails, or it waits for more. -/
inductive LoopEnd (call : QuorumCall) (quorumSize : Nat) (j : Fin m) (script : Script n) (v : Time)
    (before after : List (Event n)) (l : Lease n m) : Prop
  | won (w : Time) (hw : SucceedsFrom call quorumSize script.start w before after)
      (h : l.Returned call.outcome (call.extend v w))
  | lost (waits : Waits n)
      (hno : ∀ w, ¬ SucceedsFrom call quorumSize script.start w before after)
      (h : l.At j (call.lost script.start waits) v)
  | waiting (hno : ∀ w, ¬ SucceedsFrom call quorumSize script.start w before after)
      (hopen : ∀ e ∈ after, e.replica ≠ none)
      (h : l.At j (call.collecting script.start (script.waitsAfter (before ++ after))
        (candidatesOf call script.start (before ++ after))) v)

/-- **The loop of `Acquire` and `Renew` follows the plain quorum rule.** By induction on the events;
`t` is the last reading of the clock, at which there was no quorum. -/
theorem Script.loop (hq : 0 < quorumSize) (hp : script.Possible) {t : Time}
    (hevents : script.events = before ++ after) (ht : ∀ e ∈ after, t ≤ e.now)
    (hnone : ∀ w, KthLargest ((List.finRange n).filterMap (candidatesOf call script.start before))
      quorumSize w → w ≤ t) {l : Lease n m}
    (h : l.At j (call.collecting script.start (script.waitsAfter before)
      (candidatesOf call script.start before)) v)
    {σ : List (Time × LeaseAct n m)} (hσ : calls σ = after.flatMap (Event.acts j)) :
    LoopEnd call quorumSize j script v before after (l.run quorumSize σ) := by
  induction after generalizing before l σ t with
  | nil =>
    refine .waiting (fun _ => id) (fun _ he => absurd he List.not_mem_nil) ?_
    rw [List.append_nil]
    exact h.beside (Lease.run_tasks l quorumSize j hσ)
  | cons e after ih =>
    have hevents' : script.events = (before ++ [e]) ++ after := by
      rw [hevents, List.append_assoc]
      rfl
    have hlater : ∀ e' ∈ after, e.later ≤ e'.now := by
      have hclock := hp.clock
      rw [hevents, List.pairwise_append, List.pairwise_cons] at hclock
      exact hclock.2.1.1
    have hstopped : e.stopped = true → ∀ e' ∈ after, e'.stopped = true := by
      have hcanceled := hp.canceled
      rw [hevents, List.pairwise_append, List.pairwise_cons] at hcanceled
      exact fun he e' he' => hcanceled.2.1.1 e' he' he
    cases e with
    | canceled now =>
      obtain ⟨l₁, τ, hb, hτ, hrun⟩ := Lease.run_calls l quorumSize j hσ
      have hlost : (l₁.attempt quorumSize (now, .giveUp)).At j
          (call.lost script.start (script.waitsAfter before)) v := (h.beside hb).giveUp
      rw [hrun]
      refine .lost _ (fun w hw => ?_) (hlost.beside (Lease.run_over ?_ hτ))
      · cases hw.1
      · rw [hlost.main]
        exact Lease.lost_over call script.start _
    | answer r response now mark pause c =>
      obtain ⟨l', τ, hτ, hrun, hbody⟩ := Script.body hq hp hevents (ht _ List.mem_cons_self) hnone h hσ
      rw [hrun]
      cases hbody with
      | won w hc hw hreturned =>
        have hover : Lease.Main.Over l'.main := by
          rw [hreturned.main]
          trivial
        exact .won w ⟨hc, Or.inl hw⟩ (hreturned.beside (Lease.run_over hover hτ))
      | stopped hc hlost =>
        have hover : Lease.Main.Over l'.main := by
          rw [hlost.main]
          exact Lease.lost_over call script.start _
        refine .lost _ (fun w hw => ?_) (hlost.beside (Lease.run_over hover hτ))
        cases hc.symm.trans hw.1
      | hopeless hno hpossible hlost =>
        have hover : Lease.Main.Over l'.main := by
          rw [hlost.main]
          exact Lease.lost_over call script.start _
        refine .lost _ ?_ (hlost.beside (Lease.run_over hover hτ))
        rintro w ⟨-, hw | ⟨-, hw⟩⟩
        · exact absurd hw.2 (not_lt.mpr (hno w hw.1))
        · obtain ⟨between, e', after', rfl, hvalid⟩ := hw.quorumValid
          refine not_quorumValid_of_hopeless hpossible (hlater e' (by simp)) ?_ hvalid
          have hsplit : script.events = (before ++ [.answer r response now mark pause c]) ++
              ((between ++ [e']) ++ after') := by
            rw [hevents', List.append_assoc between]
            rfl
          exact hp.pending hsplit
      | collecting hno hcollecting =>
        have hclock : now ≤ now + mark + pause :=
          (Nat.le_add_right _ _).trans (Nat.le_add_right _ _)
        have hrest := ih hevents' hlater (fun w hk => (hno w hk).trans hclock) hcollecting hτ
        have hquiet : ∀ w, ¬ QuorumValid call quorumSize script.start
            (before ++ [.answer r response now mark pause c]) now w :=
          fun w hw => absurd hw.2 (not_lt.mpr (hno w hw.1))
        cases hrest with
        | won w hw hreturned =>
          refine .won w ⟨?_, Or.inr ⟨hquiet, hw⟩⟩ hreturned
          cases hc : (Event.answer r response now mark pause c).stopped with
          | false => rfl
          | true => exact absurd hw (not_succeedsFrom_of_stopped (hstopped hc))
        | lost waits hnever hlost =>
          refine .lost waits ?_ hlost
          rintro w ⟨-, hw | ⟨-, hw⟩⟩
          · exact hquiet w hw
          · exact hnever w hw
        | waiting hnever hopen hwaiting =>
          refine .waiting ?_ ?_ ?_
          · rintro w ⟨-, hw | ⟨-, hw⟩⟩
            · exact hquiet w hw
            · exact hnever w hw
          · exact List.forall_mem_cons.mpr ⟨nofun, hopen⟩
          · rw [List.append_assoc] at hwaiting
            exact hwaiting

/-- What is waited for after the submissions. -/
def Script.submitAll (script : Script n) (todo : List (Fin n)) (waits : Waits n) : Waits n :=
  todo.foldl (fun waits r =>
    waits.submit r (script.submissions r).2.1 (script.submissions r).2.2) waits

theorem Script.submitAll_apply {todo : List (Fin n)} {waits : Waits n} (r : Fin n) :
    script.submitAll todo waits r =
      if r ∈ todo ∧ (script.submissions r).2.2 = true then some (script.submissions r).2.1
      else waits r := by
  induction todo generalizing waits with
  | nil => simp [Script.submitAll]
  | cons r' todo ih =>
    have hstep : script.submitAll (r' :: todo) waits = script.submitAll todo
        (waits.submit r' (script.submissions r').2.1 (script.submissions r').2.2) := rfl
    rw [hstep, ih, Waits.submit]
    by_cases hr : r = r'
    · subst hr
      cases (script.submissions r).2.2 <;> simp
    · cases (script.submissions r').2.2 <;> simp [hr]

theorem Script.submitAll_finRange :
    script.submitAll (List.finRange n) (fun _ => none) = script.waitsAfter [] := by
  funext r
  rw [Script.submitAll_apply]
  exact if_congr (by simp) rfl rfl

/-- The submission loop. -/
theorem Script.submit {start : Time} {ttlMS : Nat} {todo : List (Fin n)} {waits : Waits n}
    {l : Lease n m} (h : l.At j (call.submitting start ttlMS todo waits) v)
    {σ rest : List (Time × LeaseAct n m)}
    (hσ : calls σ = todo.map (fun r => ((script.submissions r).1,
      .submit (script.submissions r).2.1 (script.submissions r).2.2)) ++ rest) :
    ∃ (l' : Lease n m) (τ : List (Time × LeaseAct n m)), calls τ = rest ∧
      l.run quorumSize σ = l'.run quorumSize τ ∧
      l'.At j (call.submitting start ttlMS [] (script.submitAll todo waits)) v := by
  induction todo generalizing l waits σ with
  | nil => exact ⟨l, σ, hσ, rfl, h⟩
  | cons r todo ih =>
    obtain ⟨l₁, τ₁, hb₁, hτ₁, hrun₁⟩ := Lease.run_calls l quorumSize j hσ
    obtain ⟨l', τ, hτ, hrun, hat⟩ := ih (h.beside hb₁).submit hτ₁
    exact ⟨l', τ, hτ, hrun₁.trans hrun, hat⟩

/-- How a call ends. -/
inductive CallEnd (call : QuorumCall) (quorumSize : Nat) (j : Fin m) (script : Script n) (v : Time)
    (l : Lease n m) : Prop
  | won (w : Time) (hw : script.Succeeds call quorumSize w)
      (h : l.Returned call.outcome (call.extend v w))
  | lost (waits : Waits n) (hno : ∀ w, ¬ script.Succeeds call quorumSize w)
      (h : l.At j (call.lost script.start waits) v)
  | waiting (hno : ∀ w, ¬ script.Succeeds call quorumSize w)
      (hopen : ∀ e ∈ script.events, e.replica ≠ none)
      (h : l.At j (call.collecting script.start (script.waitsAfter script.events)
        (candidatesOf call script.start script.events)) v)

/-- **A call follows the plain quorum rule.** -/
theorem Script.callEnd (hq : 0 < quorumSize) (hp : script.Possible) {l : Lease n m}
    (h : l.At j (call.submitting script.start script.ttlMS (List.finRange n) fun _ => none) v)
    {σ : List (Time × LeaseAct n m)} (hσ : calls σ = script.acts j) :
    CallEnd call quorumSize j script v (l.run quorumSize σ) := by
  obtain ⟨l₁, τ₁, hτ₁, hrun₁, hsubmitted⟩ := Script.submit h hσ
  rw [Script.submitAll_finRange] at hsubmitted
  obtain ⟨l₂, τ₂, hb₂, hτ₂, hrun₂⟩ := Lease.run_calls l₁ quorumSize j hτ₁
  rw [hrun₁, hrun₂]
  have hchecked : (l₂.attempt quorumSize (script.check.1, .check script.check.2)).At j _ v :=
    (hsubmitted.beside hb₂).check
  cases hcanceled : script.check.2 with
  | true =>
    rw [hcanceled, if_pos rfl] at hchecked
    have hover : Lease.Main.Over
        (l₂.attempt quorumSize (script.check.1, .check true)).main := by
      rw [hchecked.main]
      exact Lease.lost_over call script.start _
    refine .lost _ (fun w hw => ?_) (hchecked.beside (Lease.run_over hover hτ₂))
    cases hcanceled.symm.trans hw.1
  | false =>
    rw [hcanceled, if_neg Bool.false_ne_true] at hchecked
    have hnone : ∀ w, KthLargest
        ((List.finRange n).filterMap (candidatesOf call script.start [])) quorumSize w → w ≤ 0 := by
      intro w hk
      have hempty : (List.finRange n).filterMap (candidatesOf call script.start []) = [] :=
        List.filterMap_eq_nil_iff.mpr fun _ _ => rfl
      have hlen := hk.le_length
      rw [hempty] at hlen
      exact absurd hlen (not_le.mpr hq)
    have hloop := Script.loop hq hp rfl (fun _ _ => Nat.zero_le _) hnone hchecked hτ₂
    cases hloop with
    | won w hw hreturned => exact .won w (script.succeeds_iff.mpr ⟨hcanceled, hw⟩) hreturned
    | lost waits hno hlost => exact .lost waits (fun w hw => hno w (script.succeeds_iff.mp hw).2) hlost
    | waiting hno hopen hwaiting =>
      exact .waiting (fun w hw => hno w (script.succeeds_iff.mp hw).2) hopen hwaiting

/-- The number of answers that the loop of a call waits for. -/
def Main.awaited : Main n → Nat
  | .acquireCollect _ waits _ | .renewCollect _ waits _ => waits.count
  | _ => 0

/-- After a complete script there is nothing to wait for. -/
theorem CallEnd.awaited {l : Lease n m} (h : CallEnd call quorumSize j script v l)
    (hc : script.Complete) : l.main.awaited = 0 := by
  cases h with
  | won w hw hreturned => rw [hreturned.main]; rfl
  | lost waits hno hlost =>
    rw [hlost.main]
    cases call <;> rfl
  | waiting hno hopen hwaiting =>
    have hnone : (script.waitsAfter script.events).count = 0 := by
      rw [Waits.count, List.countP_eq_zero]
      intro r _ hsome
      rcases hc with ⟨e, he, hr⟩ | hall
      · exact hopen e he hr
      · unfold Script.waitsAfter at hsome
        split_ifs at hsome with hwait
        · obtain ⟨e, he, hr⟩ := hall r hwait.1
          exact hwait.2 (List.mem_filterMap.mpr ⟨e, he, hr⟩)
        · cases hsome
    rw [hwaiting.main]
    cases call <;> exact hnone

/-- The loop is over, and the call has failed. -/
theorem CallEnd.giveUp {l : Lease n m} (h : CallEnd call quorumSize j script v l)
    (hno : ∀ w, ¬ script.Succeeds call quorumSize w) {σ rest : List (Time × LeaseAct n m)}
    (hσ : calls σ = (now, .giveUp) :: rest) :
    ∃ (l' : Lease n m) (τ : List (Time × LeaseAct n m)) (waits : Waits n), calls τ = rest ∧
      l.run quorumSize σ = l'.run quorumSize τ ∧ l'.At j (call.lost script.start waits) v := by
  obtain ⟨l₁, τ, hb, hτ, hrun⟩ := Lease.run_calls l quorumSize j hσ
  cases h with
  | won w hw hreturned => exact absurd hw (hno w)
  | lost waits hno hlost =>
    refine ⟨_, τ, waits, hτ, hrun, ?_⟩
    have hover : Lease.Main.Over l₁.main := by
      rw [(hlost.beside hb).main]
      exact Lease.lost_over call script.start _
    have hact : (now, LeaseAct.giveUp) ∈ (Event.canceled now : Event n).acts j :=
      List.mem_singleton_self _
    rw [Lease.attempt_over hover hact]
    exact hlost.beside hb
  | waiting hno hopen hwaiting => exact ⟨_, τ, _, hτ, hrun, (hwaiting.beside hb).giveUp⟩

/-- The Releases of a failed `Acquire`. -/
theorem Lease.run_cleanup {submissions : Fin n → Time × Nat × Bool} {todo : List (Fin n)}
    {l : Lease n m} (h : l.At j (.cleanup todo) v) {σ rest : List (Time × LeaseAct n m)}
    (hσ : calls σ = todo.map (fun r => ((submissions r).1,
      .submit (submissions r).2.1 (submissions r).2.2)) ++ rest) :
    ∃ (l' : Lease n m) (τ : List (Time × LeaseAct n m)), calls τ = rest ∧
      l.run quorumSize σ = l'.run quorumSize τ ∧ l'.At j (.cleanup []) v := by
  induction todo generalizing l σ with
  | nil => exact ⟨l, σ, hσ, rfl, h⟩
  | cons r todo ih =>
    obtain ⟨l₁, τ₁, hb₁, hτ₁, hrun₁⟩ := Lease.run_calls l quorumSize j hσ
    have hat := h.beside hb₁
    have hmove : l₁.move quorumSize (submissions r).1
        (.submit (submissions r).2.1 (submissions r).2.2) = some (l₁.setMain (.cleanup todo)) := by
      simp only [Lease.move, Lease.submit, hat.main]
    obtain ⟨l', τ, hτ, hrun, hdone⟩ := ih ((hat.setMain _).of_move hmove) hτ₁
    exact ⟨l', τ, hτ, hrun₁.trans hrun, hdone⟩

end Loop

/-! ## The two calls -/

/-- The end of an `Acquire` that has failed: its loop is over, it makes its Releases and returns. -/
def cleanupActs (j : Fin m) (t t' : Time) (submissions : Fin n → Time × Nat × Bool) :
    List (Time × LeaseAct n m) :=
  (t, .giveUp) :: (List.finRange n).map (fun r => ((submissions r).1,
    .submit (submissions r).2.1 (submissions r).2.2)) ++ [(t', .fail j)]

/-- **`Acquire` follows the plain quorum rule**, whatever it observes: it returns a lease exactly when
the rule says so, with the validity that the rule says, and otherwise it returns an error. -/
theorem acquire_outcome (q : Quorum) (key : Nat) (script : Script q.serverCount)
    (hp : script.Possible) {slots : Nat} (j : Fin slots)
    (σ : List (Time × LeaseAct q.serverCount slots)) (hσ : calls σ = script.acts j) :
    (∀ v, ((Lease.init key script.ttlMS script.start).run q.size σ).Returned .acquired v ↔
      script.Succeeds .acquire q.size v) ∧
    (script.Complete → (∀ v, ¬ script.Succeeds .acquire q.size v) →
      ((Lease.init key script.ttlMS script.start).run q.size σ).main.awaited = 0 ∧
      ∀ t t' submissions τ, calls τ = cleanupActs j t t' submissions →
        ((Lease.init key script.ttlMS script.start).run q.size (σ ++ τ)).main = .failed) := by
  have hq : 0 < q.size := by cases q <;> decide
  have hstart : (Lease.init key script.ttlMS script.start : Lease q.serverCount slots).At j
      (QuorumCall.acquire.submitting script.start script.ttlMS (List.finRange _) fun _ => none) 0 :=
    ⟨rfl, rfl, rfl⟩
  have hend := Script.callEnd hq hp hstart hσ
  refine ⟨fun v => ⟨fun hreturned => ?_, fun hsucceeds => ?_⟩, fun hcomplete hno => ?_⟩
  · cases hend with
    | won w hw h =>
      obtain rfl : w = v := h.validUntil.symm.trans hreturned.validUntil
      exact hw
    | lost waits hno h | waiting hno hopen h => cases h.main.symm.trans hreturned.main
  · cases hend with
    | won w hw h =>
      rw [hsucceeds.unique hw]
      exact h
    | lost waits hno h | waiting hno hopen h => exact absurd hsucceeds (hno v)
  · refine ⟨hend.awaited hcomplete, fun t t' submissions τ hτ => ?_⟩
    rw [Lease.run_append]
    obtain ⟨l₁, τ₁, waits, hτ₁, hrun₁, hlost⟩ := hend.giveUp hno hτ
    obtain ⟨l₂, τ₂, hτ₂, hrun₂, hcleaned⟩ := Lease.run_cleanup hlost hτ₁
    obtain ⟨l₃, τ₃, hb₃, hτ₃, hrun₃⟩ := Lease.run_calls l₂ q.size j hτ₂
    have hat := hcleaned.beside hb₃
    rw [hrun₁, hrun₂, hrun₃, (Lease.run_tasks _ q.size j hτ₃).main]
    have hmove : l₃.move q.size t' (.fail j) = some ((l₃.setMain .failed).setTask j .starting) := by
      simp [Lease.move, Lease.fail, hat.main, Lease.spawn, Lease.setMain, hat.idle]
    rw [Lease.attempt_some hmove, Lease.record_main]
    rfl

/-- Two of three replicas are enough: one submission fails, one replica answers `OK` with 5 s, the
other `ALREADY_OWNED` with 3 s. -/
def twoAnswers : Script 3 where
  start := 10000000000
  ttlMS := 5000
  submissions r := (10000000000, r.val, r ≠ 1)
  check := (10000000000, false)
  events := [.answer 2 (some (acquireResponse 2 LeaseStatus.ok 5000)) 11000000000 0 0 false,
    .answer 0 (some (acquireResponse 0 LeaseStatus.alreadyOwned 3000)) 12000000000 0 0 false]

theorem acquire_outcome_twoAnswers : twoAnswers.Succeeds .acquire 2 12900000000 := by
  have hp : twoAnswers.Possible := ⟨by decide, by decide, by decide, by decide, by decide⟩
  have hreturned : ((Lease.init 7 5000 10000000000 : Lease 3 1).run 2 (twoAnswers.acts 0)).Returned
      .acquired 12900000000 := ⟨by decide +kernel, by decide +kernel⟩
  exact ((acquire_outcome .quorum2Of3 7 twoAnswers hp 0 _ rfl).1 _).mp hreturned

namespace Lease

variable {l l' : Lease n m} {quorumSize : Nat} {now : Time} {a : LeaseAct n m}

/-- Only `Release` ends the life of a lease. -/
theorem step_lifecycle (hs : l.step quorumSize now a = some l') (ha : a ≠ .release) :
    l'.lifecycle = l.lifecycle := by
  obtain ⟨l₁, hmove, rfl⟩ := step_cases hs
  rw [record_lifecycle]
  cases move_cases hmove with
  | task j b h => cases h <;> rfl
  | call a hm h => cases h <;> rfl
  | release => exact absurd rfl ha
  | _ => rfl

/-- The background leaves the validity alone. -/
theorem validUntil_of_task {i : Fin m} {b : TaskAct n}
    (hs : l.step quorumSize now (.task i b) = some l') : l'.validUntil = l.validUntil := by
  have hbeside := attempt_task l quorumSize now i i b
  rw [attempt, hs] at hbeside
  exact hbeside.validUntil

/-- **The validity of a lease does not decrease** until it is released. -/
theorem validUntil_mono (howned : l.main.owned = true) (hactive : l.lifecycle = .active)
    (hs : l.step quorumSize now a = some l') (ha : a ≠ .release) :
    l.validUntil ≤ l'.validUntil ∧ l'.main.owned = true ∧ l'.lifecycle = .active := by
  have hlife : l'.lifecycle = .active := (step_lifecycle hs ha).trans hactive
  cases step_validity hs with
  | same hv hl ho hg => exact ⟨hv.ge, ho.trans howned, hlife⟩
  | acquired j start waits v ha hm hv hl ho => rw [hm] at howned; cases howned
  | renewed j start waits v ha hm hv hl ho => exact ⟨hv ▸ le_max_left _ _, ho, hlife⟩
  | released ho hl hv ho' => cases hlife.symm.trans hl

theorem run_mono (howned : l.main.owned = true) (hactive : l.lifecycle = .active)
    {σ : List (Time × LeaseAct n m)} (hσ : ∀ x ∈ σ, x.2 ≠ .release) :
    l.validUntil ≤ (l.run quorumSize σ).validUntil := by
  induction σ generalizing l with
  | nil => exact le_refl _
  | cons x σ ih =>
    have hrest : ∀ y ∈ σ, y.2 ≠ .release := fun y hy => hσ y (List.mem_cons_of_mem x hy)
    rw [run_cons]
    cases hstep : l.step quorumSize x.1 x.2 with
    | none =>
      rw [attempt, hstep]
      exact ih howned hactive hrest
    | some l' =>
      obtain ⟨hle, howned', hactive'⟩ :=
        validUntil_mono howned hactive hstep (hσ x List.mem_cons_self)
      rw [attempt, hstep]
      exact hle.trans (ih howned' hactive' hrest)

end Lease

/-- **`Renew` changes the validity only on success, and only forward.** Whatever it observes and
whatever the background does, it returns without an error exactly when the plain quorum rule says so,
and then the validity is extended to the time of the rule; otherwise it returns an error and the
validity is as before. The background never changes the validity, and until `Release` it does not
decrease. -/
theorem renew_outcome (q : Quorum) {slots : Nat} (l : Lease q.serverCount slots) (o : Outcome)
    (hm : l.main = .returned o) (hactive : l.lifecycle = .active) (script : Script q.serverCount)
    (hp : script.Possible) (j : Fin slots) (hj : l.tasks j = .idle)
    (σ : List (Time × LeaseAct q.serverCount slots))
    (hσ : calls σ = (script.start, .renew script.ttlMS) :: script.acts j) :
    ((∃ v, (l.run q.size σ).Returned .renewed v) ↔ ∃ v, script.Succeeds .renew q.size v) ∧
    (∀ v, script.Succeeds .renew q.size v →
      (l.run q.size σ).Returned .renewed (max l.validUntil v)) ∧
    ((∀ v, ¬ script.Succeeds .renew q.size v) → (l.run q.size σ).validUntil = l.validUntil ∧
      (script.Complete → (l.run q.size σ).main.awaited = 0 ∧
        ∀ t t' τ, calls τ = [(t, .giveUp), (t', .fail j)] →
          (l.run q.size (σ ++ τ)).Returned .notRenewed l.validUntil)) ∧
    (∀ (l₁ l₂ : Lease q.serverCount slots) now i b,
      l₁.step q.size now (.task i b) = some l₂ → l₂.validUntil = l₁.validUntil) ∧
    ∀ τ, (∀ x ∈ τ, x.2 ≠ .release) → l.validUntil ≤ (l.run q.size τ).validUntil := by
  have hq : 0 < q.size := by cases q <;> decide
  obtain ⟨l₁, σ₁, hb₁, hσ₁, hrun₁⟩ := Lease.run_calls l q.size j hσ
  have hstart : (l₁.attempt q.size (script.start, .renew script.ttlMS)).At j
      (QuorumCall.renew.submitting script.start script.ttlMS (List.finRange _) fun _ => none)
      l.validUntil := by
    have hmove : l₁.move q.size script.start (.renew script.ttlMS) = some { l₁ with
        now := script.start
        main := .renewSubmit script.start script.ttlMS (List.finRange _) fun _ => none } := by
      simp only [Lease.move, Lease.renew, hb₁.main.trans hm, hb₁.lifecycle.trans hactive, if_true]
    refine Lease.At.of_move ?_ hmove
    exact ⟨rfl, hb₁.validUntil, hb₁.idle hj⟩
  have hend := Script.callEnd hq hp hstart hσ₁
  rw [← hrun₁] at hend
  refine ⟨⟨?_, ?_⟩, ?_, ?_, ?_, ?_⟩
  · rintro ⟨v, hreturned⟩
    cases hend with
    | won w hw h => exact ⟨w, hw⟩
    | lost waits hno h | waiting hno hopen h => cases h.main.symm.trans hreturned.main
  · rintro ⟨v, hsucceeds⟩
    cases hend with
    | won w hw h => exact ⟨_, h⟩
    | lost waits hno h | waiting hno hopen h => exact absurd hsucceeds (hno v)
  · intro v hsucceeds
    cases hend with
    | won w hw h =>
      rw [hsucceeds.unique hw]
      exact h
    | lost waits hno h | waiting hno hopen h => exact absurd hsucceeds (hno v)
  · intro hno
    refine ⟨?_, fun hcomplete => ⟨hend.awaited hcomplete, fun t t' τ hτ => ?_⟩⟩
    · cases hend with
      | won w hw h => exact absurd hw (hno w)
      | lost waits hno h | waiting hno hopen h => exact h.validUntil
    · rw [Lease.run_append]
      obtain ⟨l₂, τ₂, waits, hτ₂, hrun₂, hlost⟩ := hend.giveUp hno hτ
      obtain ⟨l₃, τ₃, hb₃, hτ₃, hrun₃⟩ := Lease.run_calls l₂ q.size j hτ₂
      have hat := hlost.beside hb₃
      have hfailed : l₃.main = .renewFailed script.start waits := hat.main
      have hmove : l₃.move q.size t' (.fail j) =
          some ((l₃.setMain (.returned .notRenewed)).setTask j
            (.collectRenew script.start waits)) := by
        simp [Lease.move, Lease.fail, hfailed, Lease.spawn, Lease.setMain, hat.idle]
      have hreturned : (l₃.attempt q.size (t', .fail j)).Returned .notRenewed l.validUntil := by
        rw [Lease.attempt_some hmove]
        exact ⟨Lease.record_main _, (Lease.record_validUntil _).trans hat.validUntil⟩
      rw [hrun₂, hrun₃]
      exact hreturned.beside (Lease.run_tasks _ q.size j hτ₃)
  · exact fun l₁ l₂ now i b hs => Lease.validUntil_of_task hs
  · exact fun τ hτ => Lease.run_mono (by rw [hm]; rfl) hactive hτ

/-- A `Renew` at 12 s: one replica has lost the lease, the two others extend it. -/
def twoRenewals : Script 3 where
  start := 12000000000
  ttlMS := 5000
  submissions r := (12000000000, 3 + r.val, true)
  check := (12000000000, false)
  events := [.answer 1 (some (renewResponse 4 LeaseStatus.stale 0)) 12000000000 0 0 false,
    .answer 2 (some (renewResponse 5 LeaseStatus.ok 5000)) 13000000000 0 0 false,
    .answer 0 (some (renewResponse 3 LeaseStatus.ok 4000)) 14000000000 0 0 false]

/-- The lease that `Acquire` returned, with its collector in the first slot; the collector ends while
the `Renew` is under way. -/
theorem renew_outcome_twoRenewals : ∃ v, twoRenewals.Succeeds .renew 2 v := by
  have hp : twoRenewals.Possible := ⟨by decide, by decide, by decide, by decide, by decide⟩
  refine ((renew_outcome .quorum2Of3
    ((Lease.init 7 5000 10000000000 : Lease 3 2).run 2 (twoAnswers.acts 0)) .acquired
    (by decide +kernel) (by decide +kernel) twoRenewals hp 1 (by decide +kernel)
    ((12000000000, .renew 5000) :: (12000000000, .task 0 (.go true)) :: twoRenewals.acts 1) rfl).1).mp
    ⟨15900000000, by decide +kernel, by decide +kernel⟩

end RedLease.Client
