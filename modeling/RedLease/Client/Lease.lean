import RedLease.Client.Quorum
import RedLease.Lib.Family
import RedLease.Lib.Trans

/-!
# A lease and its goroutines

One `Lease` of package `client`: the public calls `Acquire`, `Renew` and `Release`, made one after
the other, the background collectors that the first two leave behind, and background healing
(`client/lease.go`, `acquire.go`, `renew.go`, `release.go`, `healing.go`). What the goroutines share
is behind `stateMu`; a step here is one section under that lock, one enqueued request, or one event
of `replicaResponses.next` with what follows up to the next such access. Which request of a call a
response completes, and that it does so at most once, is the subject of `Completion.lean`: here a
call keeps the request ID that it waits for from each replica.

The clock reading is an argument of a step. The choices of the environment are in its label: whether
the send queue accepts a request, whether a context has ended, and what a replica answers, if
anything. `sent` records what was enqueued for each replica, and `attempts` how often `Release`
tried.

A collector or a healer occupies one of `m` task slots, and a slot is reused when its goroutine has
returned. A public call that returns with nothing outstanding calls `startBackgroundHealing` itself;
here that call is left to a collector that has nothing to wait for.

`Lease.move_cases` and `Lease.outgoing_cases` say once what a step can do to a lease and what it can
enqueue.
-/

namespace RedLease.Client

/-- `leaseLifecycle`. -/
inductive Lifecycle where
  | active
  | released
  deriving DecidableEq, Repr

theorem Lifecycle.released_of_ne {lifecycle : Lifecycle} (h : lifecycle ≠ .active) :
    lifecycle = .released := by
  cases lifecycle with
  | active => exact absurd rfl h
  | released => rfl

/-- The requests a call waits for: the request ID for each replica. -/
abbrev Waits (n : Nat) := Fin n → Option Nat

/-- How the last public call ended, once `Acquire` has returned the lease. -/
inductive Outcome where
  | acquired
  | renewed
  | notRenewed
  | released
  deriving DecidableEq, Repr

/-- Where the public call stands. -/
inductive Main (n : Nat) where
  | acquireSubmit (start : Time) (todo : List (Fin n)) (waits : Waits n)
  | acquireCollect (start : Time) (waits : Waits n) (candidates : Candidates n)
  /-- A quorum was found that was valid when it was found; `validUntil` is yet to be set. -/
  | acquireQuorum (start : Time) (waits : Waits n) (validUntil : Time)
  /-- `releaseAll` of a failed `Acquire`. -/
  | cleanup (todo : List (Fin n))
  /-- `Acquire` has returned an error, and nobody has the lease. -/
  | failed
  /-- No call is in progress. -/
  | returned (outcome : Outcome)
  | renewSubmit (start : Time) (ttlMS : Nat) (todo : List (Fin n)) (waits : Waits n)
  | renewCollect (start : Time) (waits : Waits n) (candidates : Candidates n)
  | renewQuorum (start : Time) (waits : Waits n) (validUntil : Time)
  /-- `Renew` is about to return an error. -/
  | renewFailed (start : Time) (waits : Waits n)
  /-- `healingBatches.Wait()` in `Release`. -/
  | releaseWait
  /-- `releaseAll` of `Release`. -/
  | releaseAll (todo : List (Fin n))
  deriving DecidableEq

/-- A background goroutine. -/
inductive Task (n : Nat) where
  | idle
  /-- `collectRemainingAcquireResults`. -/
  | collectAcquire (start : Time) (waits : Waits n)
  /-- `collectRemainingRenewResults`. -/
  | collectRenew (start : Time) (waits : Waits n)
  /-- `startBackgroundHealing`. -/
  | starting
  /-- The loop of `backgroundHeal`. -/
  | healLoop
  /-- `waitForHealingRetry`. -/
  | healWait
  /-- The second `healingTargets` of an iteration. -/
  | healTargets
  /-- `healReplicas`, before its section. -/
  | healBegin (targets : List (Fin n))
  | healSubmit (start : Time) (todo : List (Fin n)) (waits : Waits n)
  | healCollect (start : Time) (waits : Waits n)
  /-- `finishBackgroundHealing`. -/
  | healFinish
  deriving DecidableEq

/-- Who enqueued a request. -/
inductive Origin where
  | acquire
  | renew
  | heal
  /-- `releaseAll` of a failed `Acquire`. -/
  | cleanup
  /-- `Lease.Release`. -/
  | release
  deriving DecidableEq, Repr

/-- `outboundConnectionRequest`, without the lease that it is about. -/
structure Request (n : Nat) where
  replica : Fin n
  requestID : Nat
  ttlMS : Nat
  origin : Origin

/-- The `operation` of a request. -/
def Origin.kind : Origin → OperationKind
  | .acquire | .heal => .acquire
  | .renew => .renew
  | .cleanup | .release => .release

/-- `clientLease`, with the public call on it and the goroutines in the background. -/
structure Lease (n m : Nat) where
  key : Nat
  requestedTTLMS : Nat
  now : Time
  lifecycle : Lifecycle
  validUntil : Time
  confirmedUntil : Fin n → Time
  healing : Bool
  healingBatches : Nat
  /-- `releaseDone` is closed. -/
  releaseDone : Bool
  main : Main n
  tasks : Fin m → Task n
  /-- What was enqueued for each replica, in the order of its send queue. -/
  sent : Fin n → List Origin
  /-- How often `Release` tried to enqueue its request for a replica. -/
  attempts : Fin n → Nat

/-- The steps of a background goroutine. -/
inductive TaskAct (n : Nat) where
  /-- The next step, where there is only one; `ok` is false when a wait is cut short. -/
  | go (ok : Bool)
  /-- The next submission; `accepted` is whether the send queue takes it. -/
  | submit (requestID : Nat) (accepted : Bool)
  /-- `next` returns the response of replica `r`, or an error. `markConfirmed` reads the clock again
  after `mark`. -/
  | receive (r : Fin n) (response : Option Response) (mark : Time)
  /-- `releaseDone` is closed, and the goroutine aborts. -/
  | abandon

/-- The steps of a lease. Where a call leaves a goroutine behind, `j` is a free slot for it. -/
inductive LeaseAct (n m : Nat) where
  | submit (requestID : Nat) (accepted : Bool)
  /-- The cancellation check after the submissions. -/
  | check (canceled : Bool)
  /-- `next` returns the response of replica `r`, or an error. The loop body reads the clock again,
  after `mark` in `markConfirmed` and after `pause` at its end. -/
  | receive (r : Fin n) (response : Option Response) (mark pause : Time)
  /-- The caller's context ends, or no response is left to wait for. -/
  | giveUp
  /-- The cancellation check after the quorum, and the update of `validUntil`. -/
  | commit (canceled : Bool) (j : Fin m)
  /-- A call returns an error. -/
  | fail (j : Fin m)
  | renew (ttlMS : Nat)
  | release
  /-- `healingBatches.Wait()` returns. -/
  | wait
  /-- `releaseDone` is closed, and `Release` returns. -/
  | done
  | task (j : Fin m) (a : TaskAct n)

section Model

variable {n m : Nat}

/-- `newLease`, with the call of `Acquire` that makes it. -/
def Lease.init (key requestedTTLMS : Nat) (now : Time) : Lease n m where
  key
  requestedTTLMS
  now
  lifecycle := .active
  validUntil := 0
  confirmedUntil _ := 0
  healing := false
  healingBatches := 0
  releaseDone := false
  main := .acquireSubmit now (List.finRange n) fun _ => none
  tasks _ := .idle
  sent _ := []
  attempts _ := 0

/-- The number of requests a call waits for. -/
def Waits.count (waits : Waits n) : Nat := (List.finRange n).countP fun r => (waits r).isSome

/-- `responses.submit`: an accepted request is waited for. -/
def Waits.submit (waits : Waits n) (r : Fin n) (requestID : Nat) (accepted : Bool) : Waits n :=
  if accepted then Function.update waits r (some requestID) else waits

/-- `responses.consume`. -/
def Waits.consume (waits : Waits n) (r : Fin n) : Waits n := Function.update waits r none

/-- The response of replica `r` completes the request that is waited for; an error may always. -/
def Waits.Answered (waits : Waits n) (r : Fin n) (response : Option Response) : Prop :=
  ∃ id ∈ waits r, ∀ answer ∈ response, answer.requestID = id

instance (waits : Waits n) (r : Fin n) (response : Option Response) :
    Decidable (waits.Answered r response) := inferInstanceAs (Decidable (∃ _ ∈ _, ∀ _ ∈ _, _))

/-- A candidate if the response answers an Acquire successfully. -/
def acquireCandidate (start : Time) : Option Response → Option Time
  | some response =>
    if response.operation = ClientOperation.acquire ∧ isSuccessfulAcquire response.status then
      some (candidateValidUntil start response.ttlMS)
    else none
  | none => none

/-- A candidate if the response answers a Renew with `OK`. -/
def renewCandidate (start : Time) : Option Response → Option Time
  | some response =>
    if response.operation = ClientOperation.renew ∧ response.status = LeaseStatus.ok then
      some (candidateValidUntil start response.ttlMS)
    else none
  | none => none

/-- Where the loop of `Acquire` or `Renew` goes after a response. -/
inductive Verdict where
  | quorum (validUntil : Time)
  | collecting
  | hopeless

/-- The end of the loop body: the quorum is looked for only after a successful response, and the
clock is read again to see whether there can still be one. -/
def verdict (quorumSize : Nat) (now later : Time) (successful : Bool) (candidates : Candidates n)
    (remaining : Nat) : Verdict :=
  match (bestAcquireQuorum candidates quorumSize).filter fun v => successful && now < v with
  | some v => .quorum v
  | none =>
    if acquireQuorumStillPossible candidates remaining later quorumSize then .collecting
    else .hopeless

namespace Lease

variable (l : Lease n m)

/-- The public call goes on to `main`. -/
def setMain (main : Main n) : Lease n m := { l with main }

/-- Goroutine `j` goes on to `task`. -/
def setTask (j : Fin m) (task : Task n) : Lease n m :=
  { l with tasks := Function.update l.tasks j task }

/-- `markConfirmed`. -/
def markConfirmed (now : Time) (r : Fin n) (confirmedUntil : Time) : Lease n m :=
  if l.lifecycle = .active ∧ now < confirmedUntil ∧ l.confirmedUntil r < confirmedUntil then
    { l with confirmedUntil := Function.update l.confirmedUntil r confirmedUntil }
  else l

/-- `clearConfirmed`. -/
def clearConfirmed (r : Fin n) : Lease n m :=
  if l.lifecycle = .active then
    { l with confirmedUntil := Function.update l.confirmedUntil r 0 }
  else l

/-- What an answer to an Acquire does to `confirmedUntil`; `markConfirmed` reads the clock `later`. -/
def confirmAcquire (now later : Time) (r : Fin n) : Option Time → Lease n m
  | some candidate => if now < candidate then l.markConfirmed later r candidate else l
  | none => l

/-- What an answer to a Renew does to `confirmedUntil`. -/
def confirmRenew (now later : Time) (r : Fin n) : Option Time → Lease n m
  | some candidate =>
    if now < candidate then l.markConfirmed later r candidate else l.clearConfirmed r
  | none => l.clearConfirmed r

/-- `backgroundHealingNeededLocked`. -/
def HealingNeeded (now : Time) : Prop :=
  l.lifecycle = .active ∧ now < l.validUntil ∧ ∃ r, l.confirmedUntil r < l.validUntil

instance (now : Time) : Decidable (l.HealingNeeded now) := inferInstanceAs (Decidable (_ ∧ _ ∧ _))

/-- The targets of `healingTargets`. -/
def healingTargets (now : Time) : List (Fin n) :=
  (List.finRange n).filter fun r => l.confirmedUntil r ≤ now

/-! ## The public calls -/

/-- The next request of a submission loop. -/
def submit (requestID : Nat) (accepted : Bool) : Option (Lease n m) :=
  match l.main with
  | .acquireSubmit start (r :: todo) waits =>
    some (l.setMain (.acquireSubmit start todo (waits.submit r requestID accepted)))
  | .renewSubmit start ttlMS (r :: todo) waits =>
    let l := if accepted then l else l.clearConfirmed r
    some (l.setMain (.renewSubmit start ttlMS todo (waits.submit r requestID accepted)))
  | .cleanup (_ :: todo) => some (l.setMain (.cleanup todo))
  | .releaseAll (r :: todo) =>
    some { l with
      attempts := Function.update l.attempts r (l.attempts r + 1)
      main := .releaseAll todo }
  | _ => none

/-- The end of the submission loop of `Acquire` or `Renew`. -/
def check (canceled : Bool) : Option (Lease n m) :=
  match l.main with
  | .acquireSubmit start [] waits =>
    some (l.setMain (if canceled then .cleanup (List.finRange n)
      else .acquireCollect start waits fun _ => none))
  | .renewSubmit start _ [] waits =>
    some (l.setMain (if canceled then .renewFailed start waits
      else .renewCollect start waits fun _ => none))
  | _ => none

/-- The body of the collecting loop for a received response. -/
def receive (quorumSize : Nat) (now mark pause : Time) (r : Fin n) (response : Option Response) :
    Option (Lease n m) :=
  match l.main with
  | .acquireCollect start waits candidates =>
    if waits.Answered r response then
      let candidate := acquireCandidate start response
      let l := l.confirmAcquire now (now + mark) r candidate
      let waits := waits.consume r
      let candidates := candidate.elim candidates fun c => Function.update candidates r (some c)
      let verdict := verdict quorumSize now (now + mark + pause) candidate.isSome candidates
        waits.count
      some (l.setMain (match verdict with
        | .quorum validUntil => .acquireQuorum start waits validUntil
        | .collecting => .acquireCollect start waits candidates
        | .hopeless => .cleanup (List.finRange n)))
    else none
  | .renewCollect start waits candidates =>
    if waits.Answered r response then
      let candidate := renewCandidate start response
      let l := l.confirmRenew now (now + mark) r candidate
      let waits := waits.consume r
      let candidates := candidate.elim candidates fun c => Function.update candidates r (some c)
      let verdict := verdict quorumSize now (now + mark + pause) candidate.isSome candidates
        waits.count
      some (l.setMain (match verdict with
        | .quorum validUntil => .renewQuorum start waits validUntil
        | .collecting => .renewCollect start waits candidates
        | .hopeless => .renewFailed start waits))
    else none
  | _ => none

/-- The collecting loop ends without a quorum. -/
def giveUp : Option (Lease n m) :=
  match l.main with
  | .acquireCollect _ _ _ => some (l.setMain (.cleanup (List.finRange n)))
  | .renewCollect start waits _ => some (l.setMain (.renewFailed start waits))
  | _ => none

/-- A call leaves the goroutine `task` behind in a free slot. -/
def spawn (j : Fin m) (task : Task n) : Option (Lease n m) :=
  match l.tasks j with
  | .idle => some (l.setTask j task)
  | _ => none

/-- The end of a successful `Acquire` or `Renew`. -/
def commit (canceled : Bool) (j : Fin m) : Option (Lease n m) :=
  match l.main with
  | .acquireQuorum start waits validUntil =>
    if canceled then some (l.setMain (.cleanup (List.finRange n)))
    else ({ l with validUntil, main := .returned .acquired } : Lease n m).spawn j
      (.collectAcquire start waits)
  | .renewQuorum start waits validUntil =>
    if canceled then some (l.setMain (.renewFailed start waits))
    else ({ l with
      validUntil := max l.validUntil validUntil
      main := .returned .renewed } : Lease n m).spawn j (.collectRenew start waits)
  | _ => none

/-- The end of an `Acquire` or `Renew` that failed. -/
def fail (j : Fin m) : Option (Lease n m) :=
  match l.main with
  | .cleanup [] => (l.setMain .failed).spawn j .starting
  | .renewFailed start waits =>
    (l.setMain (.returned .notRenewed)).spawn j (.collectRenew start waits)
  | _ => none

/-- The start of `Renew`. -/
def renew (now : Time) (ttlMS : Nat) : Option (Lease n m) :=
  match l.main with
  | .returned _ =>
    if l.lifecycle = .active then
      some { l with now, main := .renewSubmit now ttlMS (List.finRange n) fun _ => none }
    else some (l.setMain (.returned .notRenewed))
  | _ => none

/-- The start of `Release`. -/
def release : Option (Lease n m) :=
  match l.main with
  | .returned _ =>
    if l.lifecycle = .active then
      some { l with
        lifecycle := .released
        validUntil := 0
        confirmedUntil := fun _ => 0
        main := .releaseWait }
    else some (l.setMain (.returned .released))
  | _ => none

/-- `Release` waits for `healingBatches` to drop to zero. -/
def wait : Option (Lease n m) :=
  match l.main with
  | .releaseWait =>
    if l.healingBatches = 0 then some (l.setMain (.releaseAll (List.finRange n))) else none
  | _ => none

/-- The end of `Release`. -/
def done : Option (Lease n m) :=
  match l.main with
  | .releaseAll [] => some { l with releaseDone := true, main := .returned .released }
  | _ => none

/-! ## The background goroutines -/

/-- The next step of a goroutine that waits for nothing. -/
def taskGo (now : Time) (j : Fin m) (ok : Bool) : Option (Lease n m) :=
  match l.tasks j with
  | .collectAcquire _ waits | .collectRenew _ waits =>
    if waits.count = 0 then some (l.setTask j .starting) else none
  | .starting =>
    if l.healing ∨ ¬ l.HealingNeeded now then some (l.setTask j .idle)
    else some ({ l with healing := true }.setTask j .healLoop)
  | .healLoop => some (l.setTask j (if l.HealingNeeded now then .healWait else .healFinish))
  | .healWait => some (l.setTask j (if ok then .healTargets else .healFinish))
  | .healTargets =>
    if l.HealingNeeded now then
      match l.healingTargets now with
      | [] => some (l.setTask j .healLoop)
      | targets => some (l.setTask j (.healBegin targets))
    else some (l.setTask j .healFinish)
  | .healBegin targets =>
    if l.lifecycle = .active ∧ now < l.validUntil then
      some ({ l with healingBatches := l.healingBatches + 1 }.setTask j
        (.healSubmit l.now targets fun _ => none))
    else some (l.setTask j .healLoop)
  | .healSubmit start [] waits =>
    some ({ l with healingBatches := l.healingBatches - 1 }.setTask j (.healCollect start waits))
  | .healCollect _ waits => if waits.count = 0 then some (l.setTask j .healLoop) else none
  | .healFinish =>
    if l.HealingNeeded now then some ({ l with healing := true }.setTask j .healLoop)
    else some ({ l with healing := false }.setTask j .idle)
  | _ => none

/-- The next request of `healReplicas`. -/
def taskSubmit (j : Fin m) (requestID : Nat) (accepted : Bool) : Option (Lease n m) :=
  match l.tasks j with
  | .healSubmit start (r :: todo) waits =>
    some (l.setTask j (.healSubmit start todo (waits.submit r requestID accepted)))
  | _ => none

/-- The body of a collecting loop in the background. -/
def taskReceive (now mark : Time) (j : Fin m) (r : Fin n) (response : Option Response) :
    Option (Lease n m) :=
  match l.tasks j with
  | .collectAcquire start waits =>
    if waits.Answered r response then
      some ((l.confirmAcquire now (now + mark) r (acquireCandidate start response)).setTask j
        (.collectAcquire start (waits.consume r)))
    else none
  | .collectRenew start waits =>
    if waits.Answered r response then
      some ((l.confirmRenew now (now + mark) r (renewCandidate start response)).setTask j
        (.collectRenew start (waits.consume r)))
    else none
  | .healCollect start waits =>
    if waits.Answered r response then
      some ((l.confirmAcquire now (now + mark) r (acquireCandidate start response)).setTask j
        (.healCollect start (waits.consume r)))
    else none
  | _ => none

/-- A collecting loop in the background ends because `releaseDone` is closed. -/
def taskAbandon (j : Fin m) : Option (Lease n m) :=
  match l.tasks j with
  | .collectAcquire _ _ | .collectRenew _ _ =>
    if l.releaseDone then some (l.setTask j .starting) else none
  | .healCollect _ _ => if l.releaseDone then some (l.setTask j .healLoop) else none
  | _ => none

/-- A step of the goroutine in slot `j`. -/
def taskStep (now : Time) (j : Fin m) : TaskAct n → Option (Lease n m)
  | .go ok => l.taskGo now j ok
  | .submit requestID accepted => l.taskSubmit j requestID accepted
  | .receive r response mark => l.taskReceive now mark j r response
  | .abandon => l.taskAbandon j

/-! ## The system of goroutines -/

/-- What a step enqueues. -/
def outgoing : LeaseAct n m → Option (Request n)
  | .submit requestID true =>
    match l.main with
    | .acquireSubmit _ (r :: _) _ => some ⟨r, requestID, l.requestedTTLMS, .acquire⟩
    | .renewSubmit _ ttlMS (r :: _) _ => some ⟨r, requestID, ttlMS, .renew⟩
    | .cleanup (r :: _) => some ⟨r, requestID, 0, .cleanup⟩
    | .releaseAll (r :: _) => some ⟨r, requestID, 0, .release⟩
    | _ => none
  | .task j (.submit requestID true) =>
    match l.tasks j with
    | .healSubmit _ (r :: _) _ => some ⟨r, requestID, l.requestedTTLMS, .heal⟩
    | _ => none
  | _ => none

/-- What a step does to the fields of the source. -/
def move (quorumSize : Nat) (now : Time) : LeaseAct n m → Option (Lease n m)
  | .submit requestID accepted => l.submit requestID accepted
  | .check canceled => l.check canceled
  | .receive r response mark pause => l.receive quorumSize now mark pause r response
  | .giveUp => l.giveUp
  | .commit canceled j => l.commit canceled j
  | .fail j => l.fail j
  | .renew ttlMS => l.renew now ttlMS
  | .release => l.release
  | .wait => l.wait
  | .done => l.done
  | .task j a => l.taskStep now j a

/-- The enqueued request joins the send queue of its replica. -/
def record : Option (Request n) → Lease n m
  | some request =>
    { l with
      sent := Function.update l.sent request.replica (l.sent request.replica ++ [request.origin]) }
  | none => l

/-- One step of a lease, at the clock reading `now`. -/
def step (quorumSize : Nat) (now : Time) (a : LeaseAct n m) : Option (Lease n m) :=
  (l.move quorumSize now a).map fun l' => l'.record (l.outgoing a)

end Lease

/-! ## What a step can do -/

/-- `Acquire` or `Renew` is in progress, or `Acquire` has failed. -/
def Main.calling : Main n → Prop
  | .returned _ | .releaseWait | .releaseAll _ => False
  | _ => True

/-- The share of a goroutine in `healingBatches`. -/
def Task.batch : Task n → Nat
  | .healSubmit _ _ _ => 1
  | _ => 0

namespace Lease

variable {l l' : Lease n m} {quorumSize : Nat} {now : Time} {a : LeaseAct n m}

section Record

variable (request : Option (Request n))

@[simp] theorem record_key : (l.record request).key = l.key := by cases request <;> rfl

@[simp] theorem record_lifecycle : (l.record request).lifecycle = l.lifecycle := by
  cases request <;> rfl

@[simp] theorem record_validUntil : (l.record request).validUntil = l.validUntil := by
  cases request <;> rfl

@[simp] theorem record_healingBatches :
    (l.record request).healingBatches = l.healingBatches := by
  cases request <;> rfl

@[simp] theorem record_main : (l.record request).main = l.main := by cases request <;> rfl

@[simp] theorem record_tasks : (l.record request).tasks = l.tasks := by cases request <;> rfl

@[simp] theorem record_attempts : (l.record request).attempts = l.attempts := by
  cases request <;> rfl

end Record

theorem step_cases (hs : l.step quorumSize now a = some l') :
    ∃ l₁, l.move quorumSize now a = some l₁ ∧ l' = l₁.record (l.outgoing a) := by
  obtain ⟨l₁, hm, rfl⟩ := Option.map_eq_some_iff.mp hs
  exact ⟨l₁, hm, rfl⟩

theorem markConfirmed_eq (l : Lease n m) (now : Time) (r : Fin n) (c : Time) :
    ∃ confirmedUntil, l.markConfirmed now r c = { l with confirmedUntil } := by
  unfold markConfirmed
  split_ifs
  · exact ⟨_, rfl⟩
  · exact ⟨l.confirmedUntil, rfl⟩

theorem clearConfirmed_eq (l : Lease n m) (r : Fin n) :
    ∃ confirmedUntil, l.clearConfirmed r = { l with confirmedUntil } := by
  unfold clearConfirmed
  split_ifs
  · exact ⟨_, rfl⟩
  · exact ⟨l.confirmedUntil, rfl⟩

theorem confirmAcquire_eq (l : Lease n m) (now later : Time) (r : Fin n) (candidate : Option Time) :
    ∃ confirmedUntil, l.confirmAcquire now later r candidate = { l with confirmedUntil } := by
  cases candidate with
  | none => exact ⟨l.confirmedUntil, rfl⟩
  | some c =>
    unfold confirmAcquire
    dsimp only
    split_ifs
    · exact l.markConfirmed_eq later r c
    · exact ⟨l.confirmedUntil, rfl⟩

theorem confirmRenew_eq (l : Lease n m) (now later : Time) (r : Fin n) (candidate : Option Time) :
    ∃ confirmedUntil, l.confirmRenew now later r candidate = { l with confirmedUntil } := by
  cases candidate with
  | none => exact l.clearConfirmed_eq r
  | some c =>
    unfold confirmRenew
    dsimp only
    split_ifs
    · exact l.markConfirmed_eq later r c
    · exact l.clearConfirmed_eq r

/-- All that the goroutine in slot `j` can do to the lease: it touches its slot, `confirmedUntil`,
`healing`, and `healingBatches` by its own share, which grows only while the lease is active. -/
inductive TaskStep (l : Lease n m) (j : Fin m) : Lease n m → Prop
  | quiet (confirmedUntil : Fin n → Time) (healing : Bool) (task : Task n) (ht : task.batch = 0)
      (hw : (l.tasks j).batch = 0) : TaskStep l j ({ l with confirmedUntil, healing }.setTask j task)
  | begun (task : Task n) (ht : task.batch = 1) (hw : (l.tasks j).batch = 0)
      (hactive : l.lifecycle = .active) :
      TaskStep l j ({ l with healingBatches := l.healingBatches + 1 }.setTask j task)
  | submitted (task : Task n) (ht : task.batch = 1) (hw : (l.tasks j).batch = 1) :
      TaskStep l j (l.setTask j task)
  | ended (task : Task n) (ht : task.batch = 0) (hw : (l.tasks j).batch = 1) :
      TaskStep l j ({ l with healingBatches := l.healingBatches - 1 }.setTask j task)

theorem taskGo_cases {j : Fin m} {ok : Bool} (h : l.taskGo now j ok = some l') :
    TaskStep l j l' := by
  unfold taskGo at h
  split at h
  case h_1 start waits hw =>
    split_ifs at h
    cases h
    exact .quiet _ _ _ rfl (by rw [hw]; rfl)
  case h_2 start waits hw =>
    split_ifs at h
    cases h
    exact .quiet _ _ _ rfl (by rw [hw]; rfl)
  case h_3 hw =>
    split_ifs at h
    all_goals
      cases h
      exact .quiet _ _ _ rfl (by rw [hw]; rfl)
  case h_4 hw =>
    cases h
    exact .quiet _ _ _ (by split_ifs <;> rfl) (by rw [hw]; rfl)
  case h_5 hw =>
    cases h
    exact .quiet _ _ _ (by split_ifs <;> rfl) (by rw [hw]; rfl)
  case h_6 hw =>
    split_ifs at h
    · split at h
      all_goals
        cases h
        exact .quiet _ _ _ rfl (by rw [hw]; rfl)
    · cases h
      exact .quiet _ _ _ rfl (by rw [hw]; rfl)
  case h_7 targets hw =>
    split_ifs at h with hactive
    · cases h
      exact .begun _ rfl (by rw [hw]; rfl) hactive.1
    · cases h
      exact .quiet _ _ _ rfl (by rw [hw]; rfl)
  case h_8 start waits hw =>
    cases h
    exact .ended _ rfl (by rw [hw]; rfl)
  case h_9 start waits hw =>
    split_ifs at h
    cases h
    exact .quiet _ _ _ rfl (by rw [hw]; rfl)
  case h_10 hw =>
    split_ifs at h
    all_goals
      cases h
      exact .quiet _ _ _ rfl (by rw [hw]; rfl)
  case h_11 => cases h

theorem taskReceive_cases {mark : Time} {j : Fin m} {r : Fin n} {response : Option Response}
    (h : l.taskReceive now mark j r response = some l') : TaskStep l j l' := by
  unfold taskReceive at h
  split at h
  case h_1 start waits hw =>
    split_ifs at h
    cases h
    obtain ⟨c, hc⟩ := l.confirmAcquire_eq now (now + mark) r (acquireCandidate start response)
    rw [hc]
    exact .quiet c l.healing _ rfl (by rw [hw]; rfl)
  case h_2 start waits hw =>
    split_ifs at h
    cases h
    obtain ⟨c, hc⟩ := l.confirmRenew_eq now (now + mark) r (renewCandidate start response)
    rw [hc]
    exact .quiet c l.healing _ rfl (by rw [hw]; rfl)
  case h_3 start waits hw =>
    split_ifs at h
    cases h
    obtain ⟨c, hc⟩ := l.confirmAcquire_eq now (now + mark) r (acquireCandidate start response)
    rw [hc]
    exact .quiet c l.healing _ rfl (by rw [hw]; rfl)
  case h_4 => cases h

theorem taskStep_cases {j : Fin m} {b : TaskAct n} (h : l.taskStep now j b = some l') :
    TaskStep l j l' := by
  cases b with
  | go ok => exact taskGo_cases h
  | receive r response mark => exact taskReceive_cases h
  | submit requestID accepted =>
    simp only [taskStep, taskSubmit] at h
    split at h
    · rename_i start r todo waits hw
      cases h
      exact .submitted _ rfl (by rw [hw]; rfl)
    · cases h
  | abandon =>
    simp only [taskStep, taskAbandon] at h
    split at h
    case h_4 => cases h
    all_goals
      rename_i start waits hw
      split_ifs at h
      cases h
      exact .quiet _ _ _ rfl (by rw [hw]; rfl)

/-- All that an `Acquire` or `Renew` in progress can do to the lease: it goes on, or it ends and
leaves a goroutine behind. -/
inductive CallStep (l : Lease n m) : Lease n m → Prop
  | moved (confirmedUntil : Fin n → Time) (main : Main n) (hm : main.calling) :
      CallStep l { l with confirmedUntil, main }
  | ended (validUntil : Time) (main : Main n)
      (hm : main = .failed ∨ ∃ o, o ≠ .released ∧ main = .returned o) (j : Fin m) (task : Task n)
      (ht : task.batch = 0) (hw : (l.tasks j).batch = 0) :
      CallStep l ({ l with validUntil, main }.setTask j task)

/-- All that a step can do to the lease. -/
inductive Step (l : Lease n m) : LeaseAct n m → Lease n m → Prop
  | task {l' : Lease n m} (j : Fin m) (b : TaskAct n) (h : TaskStep l j l') : Step l (.task j b) l'
  | call {l' : Lease n m} (a : LeaseAct n m) (hm : l.main.calling) (h : CallStep l l') : Step l a l'
  | renew (o : Outcome) (start : Time) (ttlMS : Nat) (hm : l.main = .returned o)
      (hactive : l.lifecycle = .active) : Step l (.renew ttlMS)
        { l with now := start, main := .renewSubmit start ttlMS (List.finRange n) fun _ => none }
  | refused (a : LeaseAct n m) (o o' : Outcome) (hm : l.main = .returned o)
      (hreleased : l.lifecycle = .released) (ha : l.outgoing a = none) :
      Step l a (l.setMain (.returned o'))
  | release (o : Outcome) (hm : l.main = .returned o) (hactive : l.lifecycle = .active) :
      Step l .release { l with
        lifecycle := .released
        validUntil := 0
        confirmedUntil := fun _ => 0
        main := .releaseWait }
  | wait (hm : l.main = .releaseWait) (hb : l.healingBatches = 0) :
      Step l .wait (l.setMain (.releaseAll (List.finRange n)))
  | attempt (requestID : Nat) (accepted : Bool) (r : Fin n) (todo : List (Fin n))
      (hm : l.main = .releaseAll (r :: todo)) : Step l (.submit requestID accepted) { l with
        attempts := Function.update l.attempts r (l.attempts r + 1)
        main := .releaseAll todo }
  | done (hm : l.main = .releaseAll []) :
      Step l .done { l with releaseDone := true, main := .returned .released }

theorem spawn_cases {j : Fin m} {task : Task n} (h : l.spawn j task = some l') :
    (l.tasks j).batch = 0 ∧ l' = l.setTask j task := by
  unfold spawn at h
  split at h
  · rename_i hw
    cases h
    exact ⟨by rw [hw]; rfl, rfl⟩
  · cases h

theorem submit_cases {requestID : Nat} {accepted : Bool} (h : l.submit requestID accepted = some l') :
    Step l (.submit requestID accepted) l' := by
  unfold submit at h
  split at h
  case h_1 start r todo waits hm =>
    cases h
    exact .call _ (by rw [hm]; trivial) (.moved _ _ trivial)
  case h_2 start ttlMS r todo waits hm =>
    cases h
    refine .call _ (by rw [hm]; trivial) ?_
    split_ifs
    · exact .moved _ _ trivial
    · obtain ⟨c, hc⟩ := l.clearConfirmed_eq r
      rw [hc]
      exact .moved c _ trivial
  case h_3 r todo hm =>
    cases h
    exact .call _ (by rw [hm]; trivial) (.moved _ _ trivial)
  case h_4 r todo hm =>
    cases h
    exact .attempt _ _ r todo hm
  case h_5 => cases h

theorem receive_cases {r : Fin n} {response : Option Response} {mark pause : Time}
    (h : l.receive quorumSize now mark pause r response = some l') :
    l.main.calling ∧ CallStep l l' := by
  unfold receive at h
  split at h
  case h_1 start waits candidates hm =>
    split_ifs at h
    cases h
    refine ⟨by rw [hm]; trivial, ?_⟩
    obtain ⟨c, hc⟩ := l.confirmAcquire_eq now (now + mark) r (acquireCandidate start response)
    rw [hc]
    exact .moved c _ (by split <;> trivial)
  case h_2 start waits candidates hm =>
    split_ifs at h
    cases h
    refine ⟨by rw [hm]; trivial, ?_⟩
    obtain ⟨c, hc⟩ := l.confirmRenew_eq now (now + mark) r (renewCandidate start response)
    rw [hc]
    exact .moved c _ (by split <;> trivial)
  case h_3 => cases h

theorem commit_cases {canceled : Bool} {j : Fin m} (h : l.commit canceled j = some l') :
    l.main.calling ∧ CallStep l l' := by
  unfold commit at h
  split at h
  case h_1 start waits validUntil hm =>
    refine ⟨by rw [hm]; trivial, ?_⟩
    split_ifs at h
    · cases h
      exact .moved _ _ trivial
    · obtain ⟨hw, rfl⟩ := spawn_cases h
      exact .ended _ _ (Or.inr ⟨.acquired, nofun, rfl⟩) j _ rfl hw
  case h_2 start waits validUntil hm =>
    refine ⟨by rw [hm]; trivial, ?_⟩
    split_ifs at h
    · cases h
      exact .moved _ _ trivial
    · obtain ⟨hw, rfl⟩ := spawn_cases h
      exact .ended _ _ (Or.inr ⟨.renewed, nofun, rfl⟩) j _ rfl hw
  case h_3 => cases h

theorem fail_cases {j : Fin m} (h : l.fail j = some l') : l.main.calling ∧ CallStep l l' := by
  unfold fail at h
  split at h
  case h_1 hm =>
    obtain ⟨hw, rfl⟩ := spawn_cases h
    exact ⟨by rw [hm]; trivial, .ended _ _ (Or.inl rfl) j _ rfl hw⟩
  case h_2 start waits hm =>
    obtain ⟨hw, rfl⟩ := spawn_cases h
    exact ⟨by rw [hm]; trivial, .ended l.validUntil _ (Or.inr ⟨.notRenewed, nofun, rfl⟩) j _ rfl hw⟩
  case h_3 => cases h

/-- **What a step does to a lease.** -/
theorem move_cases (h : l.move quorumSize now a = some l') : Step l a l' := by
  cases a with
  | submit requestID accepted => exact submit_cases h
  | check canceled =>
    simp only [move, check] at h
    split at h
    case h_1 start waits hm =>
      cases h
      exact .call _ (by rw [hm]; trivial) (.moved _ _ (by split_ifs <;> trivial))
    case h_2 start ttlMS waits hm =>
      cases h
      exact .call _ (by rw [hm]; trivial) (.moved _ _ (by split_ifs <;> trivial))
    case h_3 => cases h
  | receive r response mark pause =>
    obtain ⟨hm, hc⟩ := receive_cases h
    exact .call _ hm hc
  | giveUp =>
    simp only [move, giveUp] at h
    split at h
    case h_1 start waits candidates hm =>
      cases h
      exact .call _ (by rw [hm]; trivial) (.moved _ _ trivial)
    case h_2 start waits candidates hm =>
      cases h
      exact .call _ (by rw [hm]; trivial) (.moved _ _ trivial)
    case h_3 => cases h
  | commit canceled j =>
    obtain ⟨hm, hc⟩ := commit_cases h
    exact .call _ hm hc
  | fail j =>
    obtain ⟨hm, hc⟩ := fail_cases h
    exact .call _ hm hc
  | renew ttlMS =>
    simp only [move, renew] at h
    split at h
    · rename_i o hm
      split_ifs at h with hactive
      · cases h
        exact .renew o now ttlMS hm hactive
      · cases h
        exact .refused _ o _ hm (Lifecycle.released_of_ne hactive) rfl
    · cases h
  | release =>
    simp only [move, release] at h
    split at h
    · rename_i o hm
      split_ifs at h with hactive
      · cases h
        exact .release o hm hactive
      · cases h
        exact .refused _ o _ hm (Lifecycle.released_of_ne hactive) rfl
    · cases h
  | wait =>
    simp only [move, wait] at h
    split at h
    · rename_i hm
      split_ifs at h with hb
      cases h
      exact .wait hm hb
    · cases h
  | done =>
    simp only [move, done] at h
    split at h
    · rename_i hm
      cases h
      exact .done hm
    · cases h
  | task j b => exact .task j b (taskStep_cases h)

/-- A step that enqueues nothing. -/
theorem step_silent (ho : l.outgoing a = none) (hs : l.step quorumSize now a = some l') :
    l.move quorumSize now a = some l' := by
  obtain ⟨l₁, hmove, rfl⟩ := step_cases hs
  rw [ho]
  exact hmove

theorem step_key (hs : l.step quorumSize now a = some l') : l'.key = l.key := by
  obtain ⟨l₁, hmove, rfl⟩ := step_cases hs
  rw [record_key]
  cases move_cases hmove with
  | task j b h => cases h <;> rfl
  | call a hm h => cases h <;> rfl
  | _ => rfl

/-- What a step enqueues: a request of the call in progress, the Release of `Lease.Release`, or a
healing Acquire. -/
theorem outgoing_cases {request : Request n} (h : l.outgoing a = some request) :
    (∃ id, a = .submit id true ∧ l.main.calling ∧ request.origin ≠ .release) ∨
    (∃ id todo, a = .submit id true ∧ l.main = .releaseAll (request.replica :: todo) ∧
      request.origin = .release) ∨
    ∃ j id, a = .task j (.submit id true) ∧ (l.tasks j).batch = 1 ∧ request.origin = .heal := by
  unfold outgoing at h
  split at h
  case h_1 id =>
    split at h
    case h_5 => cases h
    case h_4 r todo hm =>
      cases h
      exact Or.inr (Or.inl ⟨id, todo, rfl, hm, rfl⟩)
    all_goals
      rename_i hm
      cases h
      exact Or.inl ⟨id, rfl, by rw [hm]; trivial, nofun⟩
  case h_2 j id =>
    split at h
    · rename_i hw
      cases h
      exact Or.inr (Or.inr ⟨j, id, rfl, by rw [hw]; rfl, rfl⟩)
    · cases h
  case h_3 => cases h

end Lease

end Model

end RedLease.Client
