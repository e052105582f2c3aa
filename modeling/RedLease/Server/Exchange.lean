import RedLease.Server.Phases

/-!
# What a connection asks and what it is answered

The system of `Connection.lean`, with one connection `c` in focus. Around the steps of the system this
module adds what its response queue is made of, and the history of the connection.

The queue is a ring. A producer claims a slot, publishes it, and only then goes on: the reader to the
next request, a worker to `pending.Done()`. Slots are taken in the order in which they were claimed,
and `TryDequeue` finds nothing while the next one is claimed and not published. The system puts a
response into its queue in one step; here that step is the claim (`slots`), what the producer does
until it goes on are steps of their own (`publish`, `done`), and `sendResponses` can find nothing in a
queue that is not empty (`starve`). `responsesDone` is closed when the reader has returned and every
worker has called `pending.Done()`.

The history is what has arrived from the client, the requests that were decoded, the operations that
were dispatched to each shard with the position of their request, those that its worker has called
`apply` for and is done with, what was handed to `BufferFrame`, and how much of that was flushed.
-/

namespace RedLease.Server

open Lib LeaseShard

/-- Where a response comes from: the worker of a shard, or the reader of the session. -/
abbrev Origin (n : Nat) := Option (Fin n)

/-- A slot of the response ring that was claimed and not taken out. -/
structure Slot (n : Nat) where
  origin : Origin n
  response : Response
  published : Bool

/-- What a producer publishes is its own. -/
def Slot.publish {n : Nat} (origin : Origin n) (x : Slot n) : Slot n :=
  if x.origin = origin then { x with published := true } else x

/-- Where a worker stands that has claimed a slot. -/
inductive Handing where
  | free
  | publishing
  /-- Before `pending.Done()`. -/
  | counting
  deriving DecidableEq, Repr

/-- A system, with one of its connections in detail and the history of that connection. -/
structure Exchange (n m : Nat) where
  sys : System n m
  slots : List (Slot n)
  /-- The response that `sendResponses` has taken and not handed to `BufferFrame`. -/
  hand : Option (Origin n × Response)
  /-- The reader has claimed a slot and not published it. -/
  publishing : Bool
  handing : Fin n → Handing
  arrived : List UInt8
  requests : List Request
  /-- What was dispatched to a shard, with the position of the request. -/
  dispatches : Fin n → List (Nat × Operation)
  applied : Fin n → List Operation
  finished : Fin n → List Operation
  /-- What was handed to `BufferFrame`. -/
  written : List (Origin n × Response)
  /-- How many of these were flushed. -/
  flushed : Nat

/-- A step of the system, or one of the finer steps of the connection. -/
inductive ExchangeAct (n m : Nat) where
  /-- A step of the system. -/
  | sys (e : System.Event n m)
  /-- The reader or a worker publishes the slot that it has claimed. -/
  | publish (origin : Origin n)
  /-- A worker calls `pending.Done()`. -/
  | done (i : Fin n)
  /-- `TryDequeue` finds that the next slot is not published. -/
  | starve

/-- The session of connection `c`; one that has not started is as it will start. -/
def System.session {n m : Nat} (s : System n m) (c : Nat) : Session := (s.sessions c).getD .start

namespace Exchange

variable {n m : Nat}

/-- The connection has not been accepted. -/
def init (n m : Nat) (clock : Time) : Exchange n m where
  sys := .init n m clock
  slots := []
  hand := none
  publishing := false
  handing _ := .free
  arrived := []
  requests := []
  dispatches _ := []
  applied _ := []
  finished _ := []
  written := []
  flushed := 0

variable (c : Nat) (s : Exchange n m)

/-- The operations of connection `c` among these. -/
def mine (ops : List Operation) : List Operation := ops.filter fun op => op.session = c

/-- `TryDequeue` finds the next slot published. -/
def headPublished : Bool :=
  match s.slots with
  | [] => true
  | x :: _ => x.published

/-- `responsesDone` is closed, as far as its producers are concerned. -/
def quiet : Bool := !s.publishing && decide (∀ i, s.handing i = .free)

/-- A producer goes on only after it has published, and `TryDequeue` finds published slots. -/
def permits : System.Event n m → Bool
  | .reader c' => decide (c' ≠ c) || !s.publishing
  | .dequeue i => decide (s.handing i = .free)
  | .writer c' choice =>
    decide (c' ≠ c) ||
      match (s.sys.session c).writer with
      | .take | .next => s.headPublished
      | .wait => decide (choice ≠ .responsesDone) || s.quiet
      | _ => true
  | _ => true

/-! ## History -/

/-- The bytes that the connection gets in a step. -/
def receives : System.Event n m → List UInt8
  | .receive c' bytes => if c' = c then bytes else []
  | _ => []

/-- The request that the reader decodes in a step. -/
def decodes (fb : Accessors) : System.Event n m → Option Request
  | .reader c' =>
    if c' = c then
      match (s.sys.session c).reader with
      | .decode frame => (decodeRequest fb frame c).toOption
      | _ => none
    else none
  | _ => none

/-- The operation for which the worker of shard `i` calls `apply` in a step. -/
def applies (i : Fin n) : System.Event n m → Option Operation
  | .server (.apply j _) =>
    match s.sys.server.workers i with
    | .admitted op => if j = i then some op else none
    | _ => none
  | _ => none

/-- The response that a step puts into the ring. -/
def claims : System.Event n m → Option (Origin n × Response)
  | .reader c' =>
    if c' = c then
      match (s.sys.session c).reader with
      | .enqueue r =>
        if (s.sys.session c).respQueue.length < responseQueueCapacity then some (none, r) else none
      | _ => none
    else none
  | .respond i =>
    match s.sys.server.workers i with
    | .reply job r =>
      if job.op.session = c ∧ (s.sys.session c).respQueue.length < responseQueueCapacity then
        some (some i, r)
      else none
    | _ => none
  | _ => none

/-- The producer `x.1` has claimed a slot for `x.2`. -/
def claim (x : Origin n × Response) : Exchange n m :=
  let slots := s.slots ++ [⟨x.1, x.2, false⟩]
  match x.1 with
  | none => { s with slots, publishing := true }
  | some i => { s with slots, handing := Function.update s.handing i .publishing }

/-- The first slot is taken out. -/
def pop : Exchange n m :=
  { s with hand := s.slots.head?.map fun x => (x.origin, x.response), slots := s.slots.tail }

/-- What the writer of the connection does with the ring, from where it was to where it is. -/
def noteWriter : Writer → Writer → Exchange n m
  | .buffer _, .next => { s with written := s.written ++ s.hand.toList, hand := none }
  | .buffer _, _ => { s with hand := none }
  | .flush, .take => { s with flushed := s.written.length }
  | .discard, .discard => { s with slots := s.slots.tail }
  | _, .buffer _ => s.pop
  | _, _ => s

/-- The history after a step of the system. -/
def record (assign : Nat → Fin n) (fb : Accessors) (e : System.Event n m) (sys : System n m) :
    Exchange n m :=
  { s with
    sys
    arrived := s.arrived ++ receives c e
    requests := s.requests ++ (s.decodes c fb e).toList
    dispatches := fun i => s.dispatches i ++
      (mine c (s.sys.dispatched assign e i).toList).map fun op => (s.requests.length - 1, op)
    applied := fun i => s.applied i ++ mine c (s.applies i e).toList
    finished := fun i => s.finished i ++ mine c (s.sys.finished e i).toList }

/-- An event leads to `sys`, and the ledger notes it. -/
def note (assign : Nat → Fin n) (fb : Accessors) (e : System.Event n m) (sys : System n m) :
    Exchange n m :=
  let t := s.record c assign fb e sys
  match e with
  | .writer c' _ =>
    if c' = c then t.noteWriter (s.sys.session c).writer (sys.session c).writer else t
  | e => (s.claims c e).elim t t.claim

/-! ## Steps -/

/-- The slots of a producer are published. -/
def publishStep (origin : Origin n) : Option (Exchange n m) :=
  let slots := s.slots.map (Slot.publish origin)
  match origin with
  | none => if s.publishing then some { s with slots, publishing := false } else none
  | some i =>
    if s.handing i = .publishing then
      some { s with slots, handing := Function.update s.handing i .counting }
    else none

/-- A worker calls `pending.Done()`. -/
def doneStep (i : Fin n) : Option (Exchange n m) :=
  if s.handing i = .counting then
    some { s with handing := Function.update s.handing i .free }
  else none

/-- The connection's writer goes on to `w`. -/
def setWriter (w : Writer) : Exchange n m :=
  { s with sys := s.sys.setSession c { s.sys.session c with writer := w } }

/-- `TryDequeue` finds nothing because the next slot is not published. -/
def starveStep : Option (Exchange n m) :=
  if s.headPublished = true ∨ s.sys.sessions c = none then none
  else
    match (s.sys.session c).writer with
    | .take => some (s.setWriter c .wait)
    | .next => some (s.setWriter c .flush)
    | .wait =>
      -- after `responsesDone` the loop ends here
      if (s.sys.session c).reader matches .stopped ∧ (s.sys.session c).pending = 0 ∧ s.quiet then
        some (s.setWriter c .returned)
      else none
    | _ => none

/-- A step of the system, noted for connection `c`, or one of the ring between its atomic steps. -/
def step (cfg : Config) (assign : Nat → Fin n) (fb : Accessors) (c : Nat) (s : Exchange n m) :
    ExchangeAct n m → Option (Exchange n m)
  | .sys e =>
    if s.permits c e then (s.sys.step cfg assign fb e).map (s.note c assign fb e) else none
  | .publish origin => s.publishStep origin
  | .done i => s.doneStep i
  | .starve => s.starveStep c

end Exchange

end RedLease.Server
