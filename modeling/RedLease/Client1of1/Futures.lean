import RedLease.Client.Responses
import RedLease.Lib.Mutex
import RedLease.Lib.OneShot

/-!
# The pooled futures of package `client1of1`

`client1of1/connection.go` and `Close` of `client1of1/client.go`: `submit`, `submitNoResponse` and
`enqueue`, `await`, `completeInShard` in the response workers and in `await`, the future pool, and the
loop of `Close` over the pending maps. Any number of calls, the sixteen response workers and `Close`
take their steps in any order, and the responses that arrive are arbitrary: late ones, repeated ones
and ones that nobody asked for.

A submission holds the lock of its shard from `checking` to `leaving`. The other critical sections
are one step each, taken while the lock is free. A send on a result channel is a step of its own,
outside the lock, and it needs room in the channel. A future and its channel are made together and
stay together, so one number stands for both. Each request ID is submitted once: `nextRequestID`
counts, and 64 bits are taken to be enough. `sync.Pool` may return any pooled future or none, and
may drop what it holds.

`stages` and `results` record, for each request, where its one result stands and what was sent to the
future with its request ID; no step depends on them.

* `step_cases` says what a step can do.
-/

namespace RedLease.Client1of1.Futures

open Client (pendingShardCount pendingShardIndex)
open Lib

/-- The error of a completion. -/
inductive Cause where
  /-- `ctx.Err()` in `await`. -/
  | ctxErr
  /-- `context.DeadlineExceeded`, from the response timer. -/
  | deadlineExceeded
  /-- `ErrClientClosed`, from `Close`. -/
  | clientClosed
  deriving DecidableEq

/-- `connectionResult`. -/
inductive Result (ρ : Type) where
  /-- The response with this request ID; the rest of it is `body`. -/
  | response (requestID : Nat) (body : ρ)
  | error (cause : Cause)
  deriving DecidableEq

/-- The errors of `enqueue`. -/
inductive Refusal where
  | clientClosed
  | sendQueueFull
  deriving DecidableEq

/-- Where the call with a request stands. `future` is none in `submitNoResponse`. -/
inductive Call (ρ : Type) where
  | idle
  /-- In `enqueue`, before the lock of the shard. -/
  | entering (future : Option Nat)
  /-- Before the check of the context. -/
  | checking (future : Option Nat)
  /-- Before `TryEnqueue`. -/
  | registered (future : Option Nat)
  /-- Before the unlock. -/
  | leaving (future : Option Nat) (refusal : Option Refusal)
  /-- `enqueue` has failed, before `releaseFuture`. -/
  | refused (future : Nat) (refusal : Refusal)
  /-- In the select of `await`. -/
  | awaiting (future : Nat)
  /-- In `completeInShard` of `await`, before the lock. -/
  | givingUp (future : Nat) (cause : Cause)
  /-- Before the send, with the channel that was found in the map. -/
  | completing (future : Nat) (cause : Cause) (pending : Nat)
  /-- In `result = <-f.result` of `await`. -/
  | receiving (future : Nat)
  /-- Before `releaseFuture` of `await`. -/
  | received (future : Nat) (result : Result ρ)
  /-- `await` has returned. -/
  | returned (result : Result ρ)
  /-- `submit` has failed, or `submitNoResponse` has returned. -/
  | ended (refusal : Option Refusal)
  deriving DecidableEq

/-- The future that the call has. -/
def Call.future {ρ : Type} : Call ρ → Option Nat
  | .idle | .returned _ | .ended _ => none
  | .entering f | .checking f | .registered f | .leaving f _ => f
  | .refused f _ | .awaiting f | .givingUp f _ | .completing f _ _ | .receiving f |
    .received f _ => some f

/-- The call holds the lock of its shard. -/
def Call.locked {ρ : Type} : Call ρ → Bool
  | .checking _ | .registered _ | .leaving _ _ => true
  | _ => false

/-- Where `completeResponses` of a shard stands. -/
inductive Worker (ρ : Type) where
  | waiting
  /-- In `completeInShard`, before the lock. -/
  | completing (requestID : Nat) (body : ρ)
  /-- Before the send, with the channel that was found in the map. -/
  | sending (requestID : Nat) (body : ρ) (pending : Nat)
  | exited
  deriving DecidableEq

/-- Where `Close` stands. -/
inductive Closer where
  | idle
  /-- In the loop over the shards, or behind it. -/
  | shard (next : Nat)
  /-- In the loop over the map of shard `j`, with the entries that are left. -/
  | sending (j : Nat) (todo : List (Nat × Nat))
  deriving DecidableEq

/-- Who has removed an entry and sends the result. -/
inductive Completer where
  | worker
  | caller
  | closer
  deriving DecidableEq

/-- The requests of a client, its workers, its pool of futures and `Close`. -/
structure State (ρ : Type) where
  calls : Nat → Call ρ
  workers : Nat → Worker ρ
  closer : Closer
  /-- `c.ctx` has ended. -/
  canceled : Bool
  /-- The request that holds the lock of a shard. -/
  mu : Nat → Option Nat
  /-- The map of a shard, from request IDs to channels; `none` if it is nil. -/
  pending : Nat → Option (List (Nat × Nat))
  /-- The field `requestID` of a future. -/
  requestID : Nat → Nat
  /-- What is in the channel of a future, which has room for one result. -/
  channel : Nat → Option (Result ρ)
  /-- The number of futures made so far. -/
  made : Nat
  futurePool : List Nat
  /-- A write to a nil map. -/
  panicked : Bool
  stages : Nat → OneShot.Stage Completer (Result ρ)
  results : Nat → List (Result ρ)

/-- The next step of a call, of a worker or of `Close`. -/
inductive Act (ρ : Type) where
  /-- `submit` begins: `acquireFuture` takes this position of the pool, or makes a future. -/
  | submit (requestID : Nat) (pooled : Option Nat)
  | submitNoResponse (requestID : Nat)
  /-- The next step of `enqueue`; `room` is whether the queue has room. -/
  | enqueue (requestID : Nat) (room : Bool)
  /-- `releaseFuture`, and the return. -/
  | release (requestID : Nat)
  /-- A receive from the result channel in `await`. -/
  | receive (requestID : Nat)
  /-- The select of `await` takes the response timer, or the context. -/
  | giveUp (requestID : Nat) (timeout : Bool)
  /-- The next step of `completeInShard` in `await`. -/
  | complete (requestID : Nat)
  /-- The worker of the shard dequeues a response. -/
  | respond (requestID : Nat) (body : ρ)
  /-- The next step of `completeInShard` in the worker of shard `j`. -/
  | work (j : Nat)
  /-- The worker of shard `j` sees that the context has ended. -/
  | retire (j : Nat)
  /-- `Close` cancels the context. -/
  | close
  /-- `Close` takes the next map, or goes on to the next shard. -/
  | sweep
  /-- `Close` sends to the `n`-th of the entries that are left. -/
  | fail (n : Nat)
  /-- The pool drops a future. -/
  | drop (n : Nat)

namespace State

variable {ρ : Type} (s : State ρ)

/-- After `New`. -/
def init : State ρ where
  calls _ := .idle
  workers _ := .waiting
  closer := .idle
  canceled := false
  mu _ := none
  pending _ := some []
  requestID _ := 0
  channel _ := none
  made := 0
  futurePool := []
  panicked := false
  stages _ := .unregistered
  results _ := []

/-- A call goes on to `c`. -/
def setCall (requestID : Nat) (c : Call ρ) : State ρ :=
  { s with calls := Function.update s.calls requestID c }

/-- Worker `j` goes on to `w`. -/
def setWorker (j : Nat) (w : Worker ρ) : State ρ :=
  { s with workers := Function.update s.workers j w }

/-- The result of a request reaches `stage`. -/
def setStage (requestID : Nat) (stage : OneShot.Stage Completer (Result ρ)) : State ρ :=
  { s with stages := Function.update s.stages requestID stage }

/-- The entries of a shard; a nil map has none. -/
def entries (j : Nat) : List (Nat × Nat) := (s.pending j).getD []

/-- `shard.pending[requestID]`. -/
def find (requestID : Nat) : Option Nat :=
  ((s.entries (pendingShardIndex requestID)).find? fun e => e.1 = requestID).map (·.2)

/-- `delete(shard.pending, requestID)`. -/
def delete (requestID : Nat) : State ρ :=
  { s with
    pending := Function.update s.pending (pendingShardIndex requestID)
      ((s.pending (pendingShardIndex requestID)).map fun m =>
        m.filter fun e => e.1 ≠ requestID) }

/-- `pending <- result`, when there is room. -/
def send (pending : Nat) (result : Result ρ) : State ρ :=
  { s with
    channel := Function.update s.channel pending (some result)
    results := Function.update s.results (s.requestID pending)
      (s.results (s.requestID pending) ++ [result]) }

/-- `releaseFuture`. -/
def releaseFuture (future : Nat) : State ρ :=
  { s with
    requestID := Function.update s.requestID future 0
    futurePool := future :: s.futurePool }

/-- `acquireFuture` with a pooled future, or with a new one. -/
def acquireFuture (requestID : Nat) (pooled : Option Nat) : Option (Nat × State ρ) :=
  match pooled with
  | some n =>
    match s.futurePool[n]? with
    | none => none
    | some future => some (future, { s with
        requestID := Function.update s.requestID future requestID
        futurePool := s.futurePool.eraseIdx n })
  | none => some (s.made, { s with
      requestID := Function.update s.requestID s.made requestID
      made := s.made + 1 })

end State

variable {ρ : Type}

/-- How the call goes on after `enqueue`: `await`, `releaseFuture` or the return. -/
def unlocked : Option Nat → Option Refusal → Call ρ
  | none, refusal => .ended refusal
  | some future, none => .awaiting future
  | some future, some refusal => .refused future refusal

/-- A step of `enqueue`. -/
def enqueueStep (s : State ρ) (requestID : Nat) (room : Bool) : Option (State ρ) :=
  let j := pendingShardIndex requestID
  match s.calls requestID with
  | .entering f =>
    match s.mu j with
    | none => some { s.setCall requestID (.checking f) with
        mu := Function.update s.mu j (some requestID) }
    | some _ => none
  | .checking f =>
    if s.canceled then some (s.setCall requestID (.leaving f (some .clientClosed)))
    else
      match f, s.pending j with
      | none, _ => some (s.setCall requestID (.registered none))
      | some _, none => some { s with panicked := true }
      | some result, some m =>
        some { (s.setCall requestID (.registered f)).setStage requestID .registered with
          pending := Function.update s.pending j
            (some ((requestID, result) :: m.filter fun e => e.1 ≠ requestID)) }
  | .registered f =>
    if room then some (s.setCall requestID (.leaving f none))
    else some (((s.delete requestID).setCall requestID
      (.leaving f (some .sendQueueFull))).setStage requestID .unregistered)
  | .leaving f refusal =>
    some { s.setCall requestID (unlocked f refusal) with mu := Function.update s.mu j none }
  | _ => none

/-- A step of `completeInShard` in `await`. -/
def completeStep (s : State ρ) (requestID : Nat) : Option (State ρ) :=
  match s.calls requestID with
  | .givingUp f cause =>
    let key := s.requestID f
    match s.mu (pendingShardIndex key), s.find key with
    | some _, _ => none
    | none, none => some (s.setCall requestID (.receiving f))
    | none, some pending =>
      some (((s.delete key).setCall requestID (.completing f cause pending)).setStage key
        (.carried .caller (.error cause)))
  | .completing f cause pending =>
    match s.channel pending with
    | some _ => none
    | none => some (((s.send pending (.error cause)).setCall requestID
        (.receiving f)).setStage requestID (.given (.error cause)))
  | _ => none

/-- A step of `completeInShard` in the worker of shard `j`. -/
def workStep (s : State ρ) (j : Nat) : Option (State ρ) :=
  match s.workers j with
  | .completing requestID body =>
    match s.mu j, s.find requestID with
    | some _, _ => none
    | none, none => some (s.setWorker j .waiting)
    | none, some pending =>
      some (((s.delete requestID).setWorker j (.sending requestID body pending)).setStage requestID
        (.carried .worker (.response requestID body)))
  | .sending requestID body pending =>
    match s.channel pending with
    | some _ => none
    | none => some (((s.send pending (.response requestID body)).setWorker j .waiting).setStage
        requestID (.given (.response requestID body)))
  | _ => none

/-- `Close` in its loops, other than a send. -/
def sweepStep (s : State ρ) : Option (State ρ) :=
  match s.closer with
  | .shard j =>
    if j < pendingShardCount then
      match s.mu j with
      | some _ => none
      | none => some { s with
          pending := Function.update s.pending j none
          closer := .sending j (s.entries j)
          stages := fun requestID =>
            if requestID ∈ (s.entries j).map (·.1) then .carried .closer (.error .clientClosed)
            else s.stages requestID }
    else none
  | .sending j [] => some { s with closer := .shard (j + 1) }
  | _ => none

/-- `Close` sends `ErrClientClosed` to one of the entries that are left. -/
def failStep (s : State ρ) (n : Nat) : Option (State ρ) :=
  match s.closer with
  | .sending j todo =>
    match todo[n]? with
    | none => none
    | some (requestID, result) =>
      match s.channel result with
      | some _ => none
      | none => some { (s.send result (.error .clientClosed)).setStage requestID
          (.given (.error .clientClosed)) with closer := .sending j (todo.eraseIdx n) }
  | _ => none

/-- One step of the client. -/
def step (s : State ρ) : Act ρ → Option (State ρ)
  | .submit requestID pooled =>
    match s.calls requestID, s.acquireFuture requestID pooled with
    | .idle, some (future, s') => some (s'.setCall requestID (.entering (some future)))
    | _, _ => none
  | .submitNoResponse requestID =>
    match s.calls requestID with
    | .idle => some (s.setCall requestID (.entering none))
    | _ => none
  | .enqueue requestID room => enqueueStep s requestID room
  | .release requestID =>
    match s.calls requestID with
    | .refused f refusal => some ((s.releaseFuture f).setCall requestID (.ended (some refusal)))
    | .received f result => some ((s.releaseFuture f).setCall requestID (.returned result))
    | _ => none
  | .receive requestID =>
    match s.calls requestID with
    | .awaiting f | .receiving f =>
      match s.channel f with
      | none => none
      | some result => some { (s.setCall requestID (.received f result)).setStage requestID
          (.taken result) with channel := Function.update s.channel f none }
    | _ => none
  | .giveUp requestID timeout =>
    match s.calls requestID with
    | .awaiting f =>
      some (s.setCall requestID (.givingUp f (if timeout then .deadlineExceeded else .ctxErr)))
    | _ => none
  | .complete requestID => completeStep s requestID
  | .respond requestID body =>
    match s.workers (pendingShardIndex requestID) with
    | .waiting =>
      some (s.setWorker (pendingShardIndex requestID) (.completing requestID body))
    | _ => none
  | .work j => workStep s j
  | .retire j =>
    match s.workers j with
    | .waiting => if s.canceled then some (s.setWorker j .exited) else none
    | _ => none
  | .close =>
    match s.closer with
    | .idle => some { s with canceled := true, closer := .shard 0 }
    | _ => none
  | .sweep => sweepStep s
  | .fail n => failStep s n
  | .drop n => some { s with futurePool := s.futurePool.eraseIdx n }

/-! ## What a step can do -/

/-- All that a step can do. -/
inductive Step (s : State ρ) : State ρ → Prop
  | reused (r n f : Nat) (hr : s.calls r = .idle) (hf : s.futurePool[n]? = some f) :
      Step s (State.setCall { s with
        requestID := Function.update s.requestID f r
        futurePool := s.futurePool.eraseIdx n } r (.entering (some f)))
  | made (r : Nat) (hr : s.calls r = .idle) :
      Step s (State.setCall { s with
        requestID := Function.update s.requestID s.made r
        made := s.made + 1 } r (.entering (some s.made)))
  | noResponse (r : Nat) (hr : s.calls r = .idle) : Step s (s.setCall r (.entering none))
  | locked (r : Nat) (f : Option Nat) (hr : s.calls r = .entering f)
      (hmu : s.mu (pendingShardIndex r) = none) :
      Step s { s.setCall r (.checking f) with
        mu := Function.update s.mu (pendingShardIndex r) (some r) }
  | turnedAway (r : Nat) (f : Option Nat) (hr : s.calls r = .checking f) :
      Step s (s.setCall r (.leaving f (some .clientClosed)))
  | passed (r : Nat) (hr : s.calls r = .checking none) : Step s (s.setCall r (.registered none))
  | panicked (r f : Nat) (hr : s.calls r = .checking (some f)) (hc : s.canceled = false)
      (hp : s.pending (pendingShardIndex r) = none) : Step s { s with panicked := true }
  | registered (r f : Nat) (m : List (Nat × Nat)) (hr : s.calls r = .checking (some f))
      (hp : s.pending (pendingShardIndex r) = some m) :
      Step s { (s.setCall r (.registered (some f))).setStage r .registered with
        pending := Function.update s.pending (pendingShardIndex r)
          (some ((r, f) :: m.filter fun e => e.1 ≠ r)) }
  | queued (r : Nat) (f : Option Nat) (hr : s.calls r = .registered f) :
      Step s (s.setCall r (.leaving f none))
  | full (r : Nat) (f : Option Nat) (hr : s.calls r = .registered f) :
      Step s (((s.delete r).setCall r (.leaving f (some .sendQueueFull))).setStage r .unregistered)
  | left (r : Nat) (f : Option Nat) (refusal : Option Refusal)
      (hr : s.calls r = .leaving f refusal) :
      Step s { s.setCall r (unlocked f refusal) with
        mu := Function.update s.mu (pendingShardIndex r) none }
  | refused (r f : Nat) (refusal : Refusal) (hr : s.calls r = .refused f refusal) :
      Step s ((s.releaseFuture f).setCall r (.ended (some refusal)))
  | released (r f : Nat) (result : Result ρ) (hr : s.calls r = .received f result) :
      Step s ((s.releaseFuture f).setCall r (.returned result))
  | received (r f : Nat) (result : Result ρ)
      (hr : s.calls r = .awaiting f ∨ s.calls r = .receiving f)
      (hf : s.channel f = some result) :
      Step s { (s.setCall r (.received f result)).setStage r (.taken result) with
        channel := Function.update s.channel f none }
  | gaveUp (r f : Nat) (cause : Cause) (hr : s.calls r = .awaiting f) :
      Step s (s.setCall r (.givingUp f cause))
  | late (r f : Nat) (cause : Cause) (hr : s.calls r = .givingUp f cause)
      (hfind : s.find (s.requestID f) = none) : Step s (s.setCall r (.receiving f))
  | removed (r f pending : Nat) (cause : Cause) (hr : s.calls r = .givingUp f cause)
      (hmu : s.mu (pendingShardIndex (s.requestID f)) = none)
      (hfind : s.find (s.requestID f) = some pending) :
      Step s (((s.delete (s.requestID f)).setCall r (.completing f cause pending)).setStage
        (s.requestID f) (.carried .caller (.error cause)))
  | delivered (r f pending : Nat) (cause : Cause) (hr : s.calls r = .completing f cause pending)
      (hroom : s.channel pending = none) :
      Step s (((s.send pending (.error cause)).setCall r (.receiving f)).setStage r
        (.given (.error cause)))
  | responded (r : Nat) (body : ρ) (hw : s.workers (pendingShardIndex r) = .waiting) :
      Step s (s.setWorker (pendingShardIndex r) (.completing r body))
  | unknown (j r : Nat) (body : ρ) (hw : s.workers j = .completing r body) :
      Step s (s.setWorker j .waiting)
  | completed (j r pending : Nat) (body : ρ) (hw : s.workers j = .completing r body)
      (hmu : s.mu j = none) (hfind : s.find r = some pending) :
      Step s (((s.delete r).setWorker j (.sending r body pending)).setStage r
        (.carried .worker (.response r body)))
  | answered (j r pending : Nat) (body : ρ) (hw : s.workers j = .sending r body pending)
      (hroom : s.channel pending = none) :
      Step s (((s.send pending (.response r body)).setWorker j .waiting).setStage r
        (.given (.response r body)))
  | retired (j : Nat) (hw : s.workers j = .waiting) : Step s (s.setWorker j .exited)
  | closed (hclose : s.closer = .idle) : Step s { s with canceled := true, closer := .shard 0 }
  | swept (j : Nat) (hclose : s.closer = .shard j) (hmu : s.mu j = none) :
      Step s { s with
        pending := Function.update s.pending j none
        closer := .sending j (s.entries j)
        stages := fun r =>
          if r ∈ (s.entries j).map (·.1) then .carried .closer (.error .clientClosed)
          else s.stages r }
  | next (j : Nat) (hclose : s.closer = .sending j []) : Step s { s with closer := .shard (j + 1) }
  | failed (j n r pending : Nat) (todo : List (Nat × Nat)) (hclose : s.closer = .sending j todo)
      (hn : todo[n]? = some (r, pending)) (hroom : s.channel pending = none) :
      Step s { (s.send pending (.error .clientClosed)).setStage r
        (.given (.error .clientClosed)) with closer := .sending j (todo.eraseIdx n) }
  | dropped (n : Nat) : Step s { s with futurePool := s.futurePool.eraseIdx n }

variable {s s' : State ρ}

theorem enqueueStep_cases {r : Nat} {room : Bool} (hs : enqueueStep s r room = some s') :
    Step s s' := by
  unfold enqueueStep at hs
  dsimp only at hs
  split at hs
  case h_1 f hr =>
    split at hs
    · rename_i hmu
      cases hs
      exact .locked r f hr hmu
    · cases hs
  case h_2 f hr =>
    by_cases hc : s.canceled = true
    · rw [if_pos hc] at hs
      cases hs
      exact .turnedAway r f hr
    · rw [if_neg hc] at hs
      split at hs
      · cases hs
        exact .passed r hr
      · rename_i f hp
        cases hs
        exact .panicked r f hr (Bool.not_eq_true _ ▸ hc) hp
      · rename_i f m hp
        cases hs
        exact .registered r f m hr hp
  case h_3 f hr =>
    split_ifs at hs
    · cases hs
      exact .queued r f hr
    · cases hs
      exact .full r f hr
  case h_4 f refusal hr =>
    cases hs
    exact .left r f refusal hr
  case h_5 => cases hs

theorem completeStep_cases {r : Nat} (hs : completeStep s r = some s') : Step s s' := by
  unfold completeStep at hs
  split at hs
  case h_1 f cause hr =>
    dsimp only at hs
    split at hs
    · cases hs
    · rename_i hfind
      cases hs
      exact .late r f cause hr hfind
    · rename_i pending hmu hfind
      cases hs
      exact .removed r f pending cause hr hmu hfind
  case h_2 f cause pending hr =>
    split at hs
    · cases hs
    · rename_i hroom
      cases hs
      exact .delivered r f pending cause hr hroom
  case h_3 => cases hs

theorem workStep_cases {j : Nat} (hs : workStep s j = some s') : Step s s' := by
  unfold workStep at hs
  split at hs
  case h_1 r body hw =>
    split at hs
    · cases hs
    · cases hs
      exact .unknown j r body hw
    · rename_i pending hmu hfind
      cases hs
      exact .completed j r pending body hw hmu hfind
  case h_2 r body pending hw =>
    split at hs
    · cases hs
    · rename_i hroom
      cases hs
      exact .answered j r pending body hw hroom
  case h_3 => cases hs

theorem sweepStep_cases (hs : sweepStep s = some s') : Step s s' := by
  unfold sweepStep at hs
  split at hs
  case h_1 j hclose =>
    split_ifs at hs
    split at hs
    · cases hs
    · rename_i hmu
      cases hs
      exact .swept j hclose hmu
  case h_2 j hclose =>
    cases hs
    exact .next j hclose
  case h_3 => cases hs

theorem failStep_cases {n : Nat} (hs : failStep s n = some s') : Step s s' := by
  unfold failStep at hs
  split at hs
  case h_1 j todo hclose =>
    split at hs
    · cases hs
    · rename_i r pending hn
      split at hs
      · cases hs
      · rename_i hroom
        cases hs
        exact .failed j n r pending todo hclose hn hroom
  case h_2 => cases hs

/-- **What a step does.** -/
theorem step_cases {a : Act ρ} (hs : step s a = some s') : Step s s' := by
  cases a with
  | submit r pooled =>
    simp only [step] at hs
    split at hs
    · rename_i f t hr hf
      cases hs
      cases pooled with
      | none =>
        cases hf
        exact .made r hr
      | some n =>
        simp only [State.acquireFuture] at hf
        split at hf
        · cases hf
        · rename_i hn
          cases hf
          exact .reused r n f hr hn
    · cases hs
  | submitNoResponse r =>
    simp only [step] at hs
    split at hs
    · rename_i hr
      cases hs
      exact .noResponse r hr
    · cases hs
  | enqueue r room => exact enqueueStep_cases hs
  | release r =>
    simp only [step] at hs
    split at hs
    · rename_i f refusal hr
      cases hs
      exact .refused r f refusal hr
    · rename_i f result hr
      cases hs
      exact .released r f result hr
    · cases hs
  | receive r =>
    simp only [step] at hs
    split at hs
    · rename_i f hr
      split at hs
      · cases hs
      · rename_i result hf
        cases hs
        exact .received r f result (Or.inl hr) hf
    · rename_i f hr
      split at hs
      · cases hs
      · rename_i result hf
        cases hs
        exact .received r f result (Or.inr hr) hf
    · cases hs
  | giveUp r timeout =>
    simp only [step] at hs
    split at hs
    · rename_i f hr
      cases hs
      exact .gaveUp r f _ hr
    · cases hs
  | complete r => exact completeStep_cases hs
  | respond r body =>
    simp only [step] at hs
    split at hs
    · rename_i hw
      cases hs
      exact .responded r body hw
    · cases hs
  | work j => exact workStep_cases hs
  | retire j =>
    simp only [step] at hs
    split at hs
    · rename_i hw
      split_ifs at hs
      cases hs
      exact .retired j hw
    · cases hs
  | close =>
    simp only [step] at hs
    split at hs
    · rename_i hclose
      cases hs
      exact .closed hclose
    · cases hs
  | sweep => exact sweepStep_cases hs
  | fail n => exact failStep_cases hs
  | drop n =>
    cases hs
    exact .dropped n

end RedLease.Client1of1.Futures
