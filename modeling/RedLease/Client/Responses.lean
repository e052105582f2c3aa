import Mathlib.Data.List.FinRange
import Mathlib.Logic.Function.Basic
import RedLease.Client.Quorum
import RedLease.Lib.Trans

/-!
# Replica requests and their completions

`client/replica_responses.go` with the parts of `replica_conn.go` and `connection_generation.go` that
complete a request: the pending maps, `submitForOperation`, `completeInShard` and `failPending`.

An operation (`Acquire`, `Renew`, a healing batch, or a background collector that took over what the
first two left open) owns one `replicaResponses` object. Whoever removes a pending entry under the
shard lock sends the result afterwards, outside the lock: that send is a step of its own
(`sending`). Objects are pooled, so an object outlives its operations; the state therefore numbers the
operations and keeps, as history, which operation had a request accepted (`accepted`), what removed
its pending entry (`removed`), and which operation consumed its result (`delivered`).

What the source leaves to its environment is a choice of the step: a context that ends, a send queue
that is full, the quorum arithmetic of `Acquire` and `Renew`, and any response from any replica, with
a request ID that is unknown, late or repeated.
-/

namespace RedLease.Client

/-- `pendingShardCount`. -/
def pendingShardCount : Nat := 16

/-- `pendingShardIndex`. -/
def pendingShardIndex (requestID : Nat) : Nat := requestID &&& (pendingShardCount - 1)

/-- The part of `client.Config` that the completion logic reads. -/
structure Config where
  quorum : Quorum
  responseTimeoutMS : UInt32

/-- `defaultResponseTimeout`. -/
def defaultResponseTimeout : Nat := 1000 * millisecond

/-- `Client.responseTimeout`, as `New` sets it. -/
def Config.responseTimeout (cfg : Config) : Nat :=
  if cfg.responseTimeoutMS = 0 then defaultResponseTimeout
  else cfg.responseTimeoutMS.toNat * millisecond

theorem Config.responseTimeout_pos (cfg : Config) : 0 < cfg.responseTimeout := by
  unfold responseTimeout
  split_ifs with h
  · decide
  · have hms : cfg.responseTimeoutMS.toNat ≠ 0 := fun h0 => h (UInt32.toNat_inj.mp h0)
    exact Nat.mul_pos (Nat.pos_of_ne_zero hms) (by decide)

/-- The errors of a completed request: `context.Canceled`, `context.DeadlineExceeded`,
`ErrClientClosed`, and `errReplicaClosed`. -/
inductive CallError where
  | canceled
  | deadlineExceeded
  | clientClosed
  | replicaClosed
  deriving DecidableEq, Repr

/-- `connectionCallResult`. -/
inductive CallResult where
  | response (response : Response)
  | error (err : CallError)
  deriving DecidableEq, Repr

/-- `replicaResponse`. -/
structure ReplicaResponse (n : Nat) where
  replica : Fin n
  requestID : Nat
  result : CallResult
  deriving DecidableEq

/-- `replicaWait`. The zero wait of the source (request ID zero, which `nextRequestID.Add(1)` never
returns) is `none` in `Responses.waits`. -/
structure ReplicaWait where
  requestID : Nat
  /-- Relative to `timeBase`. -/
  responseExpiry : Nat
  deriving DecidableEq

/-- `replicaResponses`. The timer is the instant at which it fires. -/
structure Responses (n : Nat) where
  results : List (ReplicaResponse n)
  waits : Fin n → Option ReplicaWait
  timeBase : Option Time
  remaining : Nat
  timer : Option Time

/-- An entry of a pending map: the shard is determined by the request ID, and `operation` is the
object whose results channel the map holds. -/
structure PendingEntry (n : Nat) where
  replica : Fin n
  requestID : Nat
  operation : Nat
  deriving DecidableEq

/-- A completer between its removal of an entry and its send on the results channel. -/
structure Sending (n : Nat) where
  entry : PendingEntry n
  result : CallResult
  deriving DecidableEq

/-- Who owns a `replicaResponses`: `Acquire`, `Renew`, `healReplicas`, or one of
`collectRemainingAcquireResults` and `collectRemainingRenewResults`. -/
inductive Kind where
  | acquire
  | renew
  | heal
  | collect
  deriving DecidableEq, Repr

/-- Where an operation stands. -/
inductive Pc (n : Nat) where
  /-- The submission loop; `now` is the clock reading of `submit` for the replica at hand. -/
  | submit (todo : List (Fin n)) (now : Option Time)
  /-- The cancellation check after the submission loop. -/
  | check
  /-- The condition of the collecting loop. -/
  | loop
  /-- The `select` of `next`. -/
  | select
  /-- `expireResponses`, with its one clock reading. -/
  | expire (now : Nat) (todo : List (Fin n)) (expired : Bool)
  /-- The receive of `next` after `expireResponses` returned true. -/
  | recv
  /-- `next` returned a response. -/
  | received
  /-- The completions of `abort`. -/
  | abort (err : CallError) (todo : List (Fin n))
  /-- The receives of `abort`. -/
  | drain
  | release
  deriving DecidableEq

/-- An operation that has taken a `replicaResponses` object from the pool. -/
structure Owner (n : Nat) where
  kind : Kind
  pc : Pc n
  received : Nat
  /-- The number of the operation. A collector continues the operation it took over. -/
  number : Nat

/-- A request that `submitForOperation` accepted, with the clock reading of its `submit`. -/
structure Accepted (n : Nat) where
  requestID : Nat
  replica : Fin n
  number : Nat
  now : Time

/-- What completed a request. -/
inductive Completer where
  | response
  | expiry
  | abort
  | close
  deriving DecidableEq, Repr

/-- The removal of a pending entry. -/
structure Removed where
  requestID : Nat
  result : CallResult
  completer : Completer
  clock : Time

/-- A result that `consume` took from the channel. -/
structure Delivered where
  requestID : Nat
  number : Nat
  result : CallResult
  deriving DecidableEq

/-- The replica requests of a client: the pending maps, who is about to send, the objects. -/
structure State (n : Nat) where
  clock : Time
  nextRequestID : Nat
  /-- `replicaConn.ctx` is canceled. -/
  canceled : Fin n → Bool
  /-- `shard.pending` is nil. -/
  nilMap : Fin n → Nat → Bool
  pending : List (PendingEntry n)
  sending : List (Sending n)
  responses : Nat → Responses n
  owners : Nat → Option (Owner n)
  panicked : Bool
  nextNumber : Nat
  accepted : List (Accepted n)
  removed : List Removed
  delivered : List Delivered
  /-- The operations whose `acquireCancellationError` reported an error after the submission loop. -/
  callerErrors : List (Nat × CallError)

/-- How an operation resolves its next step. -/
inductive Choice where
  /-- The only way on, or the successful one. -/
  | go
  /-- `submitForOperation` returns an error. -/
  | refuse
  /-- The caller's or the lifecycle's context has ended. -/
  | cancel (err : CallError)
  /-- The timer fires. -/
  | timeout
  /-- A valid quorum is there, and the call returns. -/
  | quorum
  /-- No quorum is possible any more, or the context ended before the quorum was recorded. -/
  | stop
  deriving DecidableEq, Repr

/-- A step of an operation, of a completer, or of `Close`. -/
inductive Act (n : Nat) where
  | tick (now : Time)
  /-- An operation takes object `o` from the pool. A healing batch goes to the replicas that
  `targets` selects, the others to all. -/
  | start (o : Nat) (kind : Kind) (targets : Fin n → Bool)
  | own (o : Nat) (choice : Choice)
  /-- A completion worker takes a response that arrived from replica `r`. -/
  | respond (r : Fin n) (response : Response)
  /-- The send of completer `k`. -/
  | send (k : Nat)
  /-- `Close` cancels the context of replica `r`. -/
  | cancel (r : Fin n)
  /-- `failPending` reaches shard `j` of replica `r`. -/
  | failPending (r : Fin n) (j : Nat)

section Model

variable {n : Nat}

/-- The object that `acquireReplicaResponses` allocates when the pool is empty. -/
def Responses.init : Responses n where
  results := []
  waits _ := none
  timeBase := none
  remaining := 0
  timer := none

/-- Nothing has been submitted. -/
def State.init (clock : Time) : State n where
  clock := clock
  nextRequestID := 0
  canceled _ := false
  nilMap _ _ := false
  pending := []
  sending := []
  responses _ := Responses.init
  owners _ := none
  panicked := false
  nextNumber := 0
  accepted := []
  removed := []
  delivered := []
  callerErrors := []

/-! ## The response object -/

/-- The nearest expiry among the outstanding waits, as `nextTimeout` computes it: zero stands for
none. -/
def nextExpiry (waits : Fin n → Option ReplicaWait) : Nat :=
  (List.finRange n).foldl
    (fun next r =>
      match waits r with
      | some wait => if next = 0 ∨ wait.responseExpiry < next then wait.responseExpiry else next
      | none => next)
    0

/-- `nextTimeout`: the timer fires at the nearest expiry, or at once when that has passed. -/
def Responses.nextTimeout (clock : Time) (resp : Responses n) : Responses n :=
  let next := nextExpiry resp.waits
  if next = 0 then resp
  else { resp with timer := some (max (resp.timeBase.getD 0 + next) clock) }

/-- The wait that `submit` records for a request it stamped at `now`. -/
def Responses.newWait (cfg : Config) (resp : Responses n) (requestID : Nat) (now : Time) :
    ReplicaWait :=
  ⟨requestID, now - resp.timeBase.getD now + cfg.responseTimeout⟩

/-- `consume`; `none` is its panic. -/
def Responses.consume (resp : Responses n) (x : ReplicaResponse n) : Option (Responses n) :=
  match resp.waits x.replica with
  | none => none
  | some wait =>
    if wait.requestID = x.requestID then
      some
        { resp with
          waits := Function.update resp.waits x.replica none
          remaining := resp.remaining - 1
          timer := if resp.remaining - 1 = 0 then none else resp.timer }
    else none

/-- Whether `release` accepts the object. -/
def Responses.Idle (resp : Responses n) : Prop :=
  resp.remaining = 0 ∧ resp.results = [] ∧ resp.timer = none

instance (resp : Responses n) : Decidable resp.Idle :=
  inferInstanceAs (Decidable (_ ∧ _ ∧ _))

namespace State

variable (s : State n) (o : Nat) (own : Owner n)

/-! ## Steps of an operation -/

/-- The operation of object `o` becomes `own`. -/
def setOwner (own : Owner n) : State n :=
  { s with owners := Function.update s.owners o (some own) }

/-- Object `o` becomes `resp`. -/
def setResponses (resp : Responses n) : State n :=
  { s with responses := Function.update s.responses o resp }

/-- A new operation takes object `o` from the pool. -/
def start : State n := { s.setOwner o own with nextNumber := s.nextNumber + 1 }

/-- The operation goes on to `pc`. -/
def goto (pc : Pc n) : State n := s.setOwner o { own with pc := pc }

/-- The collecting loop enters `next`. -/
def enterNext : State n :=
  (s.setResponses o ((s.responses o).nextTimeout s.clock)).goto o own .select

/-- The call returns: what is still open goes to a background collector. -/
def handOff : State n :=
  if (s.responses o).remaining = 0 then s.goto o own .release
  else s.setOwner o { own with kind := .collect, pc := .loop }

/-- `Acquire` aborts with the error of its caller's context. -/
def callerCanceled (err : CallError) : State n :=
  { s.goto o own (.abort err (List.finRange n)) with
    callerErrors := (own.number, err) :: s.callerErrors }

/-- The clock reading of `submit`. -/
def stamp (r : Fin n) (todo : List (Fin n)) : State n :=
  (s.setResponses o
    { s.responses o with timeBase := some ((s.responses o).timeBase.getD s.clock) }).goto o own
    (.submit (r :: todo) (some s.clock))

/-- The request is in the pending map and in the send queue, and `submit` records its wait. The
request ID is drawn here: of its value only equality matters. -/
def accept (cfg : Config) (r : Fin n) (todo : List (Fin n)) (now : Time) : State n :=
  let requestID := s.nextRequestID + 1
  let resp := s.responses o
  { s with
    nextRequestID := requestID
    pending := ⟨r, requestID, o⟩ :: s.pending
    responses := Function.update s.responses o
      { resp with
        waits := Function.update resp.waits r (some (resp.newWait cfg requestID now))
        remaining := resp.remaining + 1 }
    owners := Function.update s.owners o (some { own with pc := .submit todo none })
    accepted := ⟨requestID, r, own.number, now⟩ :: s.accepted }

/-- `submitForOperation`, where it does not return an error. -/
def submitForOperation (cfg : Config) (r : Fin n) (todo : List (Fin n)) (now : Time) :
    Option (State n) :=
  if s.canceled r then none
  -- a write to a nil map
  else if s.nilMap r (pendingShardIndex (s.nextRequestID + 1)) then some { s with panicked := true }
  else some (s.accept o own cfg r todo now)

/-- The pending entries that `p` selects are removed and their completion is on its way. -/
def move (p : PendingEntry n → Bool) (result : CallResult) (completer : Completer) : State n :=
  { s with
    pending := s.pending.filter (fun e => !p e)
    sending := s.sending ++ (s.pending.filter p).map fun e => ⟨e, result⟩
    removed :=
      (s.pending.filter p).map (fun e => ⟨e.requestID, result, completer, s.clock⟩) ++ s.removed }

/-- `complete`, up to the send. The pending map of a replica has at most one entry for an ID. -/
def complete (r : Fin n) (requestID : Nat) : CallResult → Completer → State n :=
  s.move fun e => e.replica = r && e.requestID = requestID

/-- The send of a completer on the results channel. -/
def send (k : Nat) (x : Sending n) : State n :=
  let resp := s.responses x.entry.operation
  { s with
    sending := s.sending.eraseIdx k
    responses := Function.update s.responses x.entry.operation
      { resp with
        results := resp.results ++ [⟨x.entry.replica, x.entry.requestID, x.result⟩] } }

/-- `consume` returned: the object is `resp`, and the operation goes on at `pc`. -/
def consumed (resp : Responses n) (x : ReplicaResponse n) (pc : Pc n) : State n :=
  { s with
    responses := Function.update s.responses o resp
    owners := Function.update s.owners o (some { own with pc := pc, received := own.received + 1 })
    delivered := ⟨x.requestID, own.number, x.result⟩ :: s.delivered }

/-- A receive from the results channel, with `consume`. -/
def take (pc : Pc n) : Option (State n) :=
  match (s.responses o).results with
  | [] => none
  | x :: rest =>
    match Responses.consume { s.responses o with results := rest } x with
    | none => some { s with panicked := true }
    | some resp => some (s.consumed o own resp x pc)

/-- `release` puts the object back into the pool. -/
def put : State n :=
  { s with
    responses := Function.update s.responses o
      { s.responses o with waits := fun _ => none, timeBase := none }
    owners := Function.update s.owners o none }

/-- `release`. -/
def release : State n :=
  if (s.responses o).Idle then s.put o else { s with panicked := true }

end State

/-- The next step of the operation that owns object `o`. -/
def ownerStep (cfg : Config) (s : State n) (o : Nat) (own : Owner n) (choice : Choice) :
    Option (State n) :=
  let resp := s.responses o
  let all := List.finRange n
  match own.pc, choice with
  | .submit [] _, .go =>
    match own.kind with
    | .acquire | .renew => some (s.goto o own .check)
    | .heal | .collect => some (s.goto o own .loop)
  | .submit (r :: todo) none, .go => some (s.stamp o own r todo)
  | .submit (r :: todo) (some now), .go => s.submitForOperation o own cfg r todo now
  | .submit (_ :: todo) (some _), .refuse =>
    some (s.setOwner o { own with received := own.received + 1, pc := .submit todo none })
  | .check, .go => some (s.goto o own .loop)
  | .check, .cancel err =>
    match own.kind with
    | .acquire => some (s.callerCanceled o own err)
    | _ => some (s.handOff o own)
  | .loop, .go =>
    match own.kind with
    | .acquire =>
      if own.received < n then some (s.enterNext o own)
      else some (s.goto o own (.abort .canceled all))
    | .renew =>
      if own.received < n then some (s.enterNext o own) else some (s.handOff o own)
    | .heal | .collect =>
      if resp.remaining ≠ 0 then some (s.enterNext o own) else some (s.goto o own .release)
  | .select, .go => s.take o own .received
  | .select, .timeout =>
    match resp.timer with
    | some t =>
      if t ≤ s.clock then
        some (s.goto o own (.expire (s.clock - resp.timeBase.getD 0) all false))
      else none
    | none => none
  | .select, .cancel _ =>
    match own.kind with
    | .renew => some (s.handOff o own)
    | _ => some (s.goto o own (.abort .canceled all))
  | .expire _ [] true, .go => some (s.goto o own .recv)
  | .expire _ [] false, .go => some (s.enterNext o own)
  | .expire now (r :: todo) expired, .go =>
    match resp.waits r with
    | some wait =>
      if wait.responseExpiry ≤ now then
        some ((s.complete r wait.requestID (.error .deadlineExceeded) .expiry).goto o own
          (.expire now todo true))
      else some (s.goto o own (.expire now todo expired))
    | none => some (s.goto o own (.expire now todo expired))
  | .recv, .go => s.take o own .received
  | .received, .go => some (s.goto o own .loop)
  | .received, .quorum =>
    match own.kind with
    | .acquire | .renew => some (s.handOff o own)
    | .heal | .collect => none
  | .received, .stop =>
    match own.kind with
    | .acquire => some (s.goto o own (.abort .canceled all))
    | .renew => some (s.handOff o own)
    | .heal | .collect => none
  | .abort err (r :: todo), .go =>
    match resp.waits r with
    | some wait =>
      some ((s.complete r wait.requestID (.error err) .abort).goto o own (.abort err todo))
    | none => some (s.goto o own (.abort err todo))
  | .abort _ [], .go => some (s.goto o own .drain)
  | .drain, .go =>
    if resp.remaining ≠ 0 then s.take o own .drain else some (s.goto o own .release)
  | .release, .go => some (s.release o)
  | _, _ => none

/-- The replicas to which an operation of this kind submits. -/
def Kind.targets (kind : Kind) (targets : Fin n → Bool) : List (Fin n) :=
  match kind with
  | .heal => (List.finRange n).filter targets
  | _ => List.finRange n

/-- One step of the client. -/
def step (cfg : Config) (s : State n) : Act n → Option (State n)
  | .tick now => if s.clock ≤ now then some { s with clock := now } else none
  | .start o kind targets =>
    match s.owners o with
    | some _ => none
    | none =>
      if kind = .collect then none
      else
        some (s.start o ⟨kind, .submit (kind.targets targets) none, 0, s.nextNumber⟩)
  | .own o choice =>
    match s.owners o with
    | some own => ownerStep cfg s o own choice
    | none => none
  | .respond r response =>
    some (s.complete r response.requestID (.response response) .response)
  | .send k =>
    match s.sending[k]? with
    | none => none
    | some x =>
      -- a send on a full channel blocks
      if (s.responses x.entry.operation).results.length < maxServerCount then some (s.send k x)
      else none
  | .cancel r => some { s with canceled := Function.update s.canceled r true }
  | .failPending r j =>
    if s.canceled r ∧ s.nilMap r j = false then
      some
        { s.move (fun e => e.replica = r && pendingShardIndex e.requestID = j)
            (.error .replicaClosed) .close with
          nilMap := Function.update s.nilMap r (Function.update (s.nilMap r) j true) }
    else none

end Model

end RedLease.Client
