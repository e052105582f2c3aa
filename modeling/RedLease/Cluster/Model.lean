import RedLease.Client.Validity
import RedLease.Server.Answers

/-!
# The whole system

The servers of a deployment, each a `Server.State` with its goroutines, any number of client
processes, each with any number of leases, and the network between them. What a lease and its
goroutines do is a parameter, `Package`, since there are two client packages; `Package.Lawful` is what
the safety of the system needs of one of them. A request or a response in
flight may be delivered, late and out of order, or lost; what waits in the queues and buffers of
either side counts as in flight. A server can crash at any time, and comes back with empty state in
quarantine; a server that is down for a while is one that does nothing and then crashes again, and
one that is closed is one that crashes.

Time is a sequence of instants, and each process has a clock that is a function of the instant.
`Clocks` has the assumptions on them: they are monotone, and while a client's clock advances by no
more than the longest validity a server's clock advances by at most `safetyMarginMS` more.

A process numbers its requests, and the response to a request finds its way back by the process and
the number. That `Acquire` calls have distinct lease IDs is the guard of the step `acquire`.

Two fields are there for the proofs only: `issued` remembers for which lease, to which server and
when a request was enqueued, and `memory` what a server had stored when it crashed.
-/

namespace RedLease

/-- A process of package `client`: a node and its incarnation. -/
structure Process where
  clientID : Nat
  bootID : Nat
  deriving DecidableEq, Repr

/-- The process that made a lease. -/
def LeaseID.process (id : LeaseID) : Process := ⟨id.clientID, id.bootID⟩

namespace Cluster

open Lib

/-- `RestartQuarantineDuration`. -/
def restartQuarantineDuration : Time := (maxTTLMS + safetyMarginMS + 1) * millisecond

/-- What a client package gives to the system: the state of one lease with its goroutines, and its
steps, each at one reading of the clock. -/
structure Package (n : Nat) where
  Lease : Type
  Act : Type
  /-- A call of `Acquire` makes a lease: its key, the requested TTL, and the reading of the clock. -/
  init : Nat → Nat → Time → Lease
  key : Lease → Nat
  lifecycle : Lease → Client.Lifecycle
  validUntil : Lease → Time
  step : Time → Lease → Act → Option Lease
  /-- The request that a step enqueues. -/
  outgoing : Lease → Act → Option (Client.Request n)
  /-- The response that a step receives, and the replica it is from. -/
  incoming : Act → Option (Fin n × Response)

/-- What the safety of the system needs of a client package: a validity that rests on evidence from
`quorumSize` replicas, and no Release before the lease is given up for good. -/
structure Package.Lawful {n : Nat} (P : Package n) (quorumSize : Nat) where
  Sound : Client.Evidence n → Time → P.Lease → Prop
  Abandoned : P.Lease → Prop
  key_init : ∀ key ttlMS now, P.key (P.init key ttlMS now) = key
  key_step : ∀ {now l a l'}, P.step now l a = some l' → P.key l' = P.key l
  sound_init : ∀ e key ttlMS now, Sound e now (P.init key ttlMS now)
  sound_mono : ∀ {e e' now now' l}, e.Le e' → now ≤ now' → Sound e now l → Sound e' now' l
  sound_step : ∀ {e now l a l'}, Sound e now l →
    (∀ request start, P.outgoing l a = some request → start ≤ now →
      e.asked request.replica request.requestID start) →
    (∀ r answer start, P.incoming a = some (r, answer) → e.asked r answer.requestID start →
      Client.Successful answer → e.kept r (Client.candidateValidUntil start answer.ttlMS)) →
    P.step now l a = some l' → Sound e now l'
  kept : ∀ {e now l}, Sound e now l → P.lifecycle l = .active → now < P.validUntil l →
    e.QuorumKept quorumSize (P.validUntil l)
  abandoned_step : ∀ {now l a l'}, Abandoned l → P.step now l a = some l' → Abandoned l'
  abandoned_not_valid : ∀ {e now l}, Sound e now l → Abandoned l →
    ¬ (P.lifecycle l = .active ∧ now < P.validUntil l)
  abandoned_of_release : ∀ {e now l a request}, Sound e now l → P.outgoing l a = some request →
    request.origin.kind = .release → Abandoned l

/-- The servers, and the package that all clients use. A server runs `cleaners` passes of
`removeExpiredKeys` at a time. -/
structure Deployment where
  serverCount : Nat
  config : Fin serverCount → Server.Config
  assign : (r : Fin serverCount) → Nat → Fin (config r).shardCount
  cleaners : Nat
  package : Package serverCount

/-- The clocks of the servers and of the client processes, at each instant. -/
structure Clocks (n : Nat) where
  server : Fin n → Nat → Time
  client : Process → Nat → Time
  server_mono : ∀ r, Monotone (server r)
  client_mono : ∀ p, Monotone (client p)
  drift : ∀ p r t t', t ≤ t' →
    client p t' ≤ client p t + (maxTTLMS - safetyMarginMS) * millisecond →
    server r t' ≤ server r t + (client p t' - client p t) + safetyMarginMS * millisecond

/-- Where a request came from, and when. -/
structure Issue (n : Nat) where
  leaseID : LeaseID
  replica : Fin n
  instant : Nat

/-- The servers, the leases of all clients, and the messages between them. -/
structure State (d : Deployment) where
  instant : Nat
  servers : (r : Fin d.serverCount) → Server.State (d.config r).shardCount d.cleaners
  startedAt : Fin d.serverCount → Time
  leases : LeaseID → Option d.package.Lease
  nextRequestID : Process → Nat
  /-- The requests in flight, with the server each is for. -/
  requests : List (Fin d.serverCount × Operation)
  /-- The responses in flight, with the server each is from and the process it is for. -/
  responses : List (Fin d.serverCount × Process × Response)
  issued : Process → Nat → Option (Issue d.serverCount)
  memory : Fin d.serverCount → Nat → Option (LeaseID × Time)

/-- The steps of the system. -/
inductive Act (d : Deployment) where
  /-- The next instant. -/
  | advance
  /-- A step of a server's goroutines. -/
  | server (r : Fin d.serverCount) (a : Server.Act (d.config r).shardCount d.cleaners)
  /-- A request in flight reaches the worker of its shard. -/
  | deliver (k : Nat)
  /-- A request in flight reaches a server in quarantine. -/
  | refuse (k : Nat)
  /-- A worker sends its response. -/
  | respond (r : Fin d.serverCount) (i : Fin (d.config r).shardCount)
  /-- The quarantine of a server is over. -/
  | activate (r : Fin d.serverCount)
  | crash (r : Fin d.serverCount)
  | loseRequest (k : Nat)
  | loseResponse (k : Nat)
  /-- A call of `Acquire` makes a lease. -/
  | acquire (id : LeaseID) (key ttlMS : Nat)
  /-- A step of a lease's goroutines. -/
  | lease (id : LeaseID) (a : d.package.Act)

/-- The steps of a server that depend on nothing outside; a reading of the clock is of the present. -/
def isLocal {n m : Nat} (clock : Time) : Server.Act n m → Bool
  | .check _ | .work _ _ | .sweep _ | .pass _ => true
  | .apply _ now | .start _ now => now = clock
  | _ => false

/-- The operation that a server decodes from a request for lease `id` on `key`. -/
def operation {n : Nat} (id : LeaseID) (key : Nat) (request : Client.Request n) : Operation where
  requestID := request.requestID
  kind := request.origin.kind
  key
  leaseID := id
  requestedTTLMS := request.ttlMS
  session := 0

section Model

variable {d : Deployment}

namespace State

/-- All servers start together, in quarantine. -/
def init (d : Deployment) (C : Clocks d.serverCount) : State d where
  instant := 0
  servers r := .init _ _ (C.server r 0)
  startedAt r := C.server r 0
  leases _ := none
  nextRequestID _ := 0
  requests := []
  responses := []
  issued _ _ := none
  memory _ _ := none

variable (s : State d)

/-- Server `r` becomes `server`. -/
def setServer (r : Fin d.serverCount)
    (server : Server.State (d.config r).shardCount d.cleaners) : State d :=
  { s with servers := Function.update s.servers r server }

/-- The lease `id` becomes `l`. -/
def setLease (id : LeaseID) (l : d.package.Lease) : State d :=
  { s with leases := Function.update s.leases id (some l) }

/-- A step of one server. -/
def stepServer (r : Fin d.serverCount)
    (a : Server.Act (d.config r).shardCount d.cleaners) : Option (State d) :=
  (Server.step (d.config r) (d.assign r) (s.servers r) a).map (s.setServer r)

/-- What a server has stored for a key, or had when it crashed if it is in quarantine. -/
def view (r : Fin d.serverCount) (k : Nat) : Option (LeaseID × Time) :=
  if (s.servers r).phase = .quarantine then s.memory r k
  else (s.servers r).stored (d.assign r) k

/-- A response in flight is received. -/
def consume (p : Process) : Option (Fin d.serverCount × Response) → State d
  | some (r, response) => { s with responses := s.responses.erase (r, p, response) }
  | none => s

/-- A request of lease `id` is enqueued. -/
def send (id : LeaseID) (key : Nat) : Option (Client.Request d.serverCount) → State d
  | some request =>
    { s with
      nextRequestID := Function.update s.nextRequestID id.process (request.requestID + 1)
      requests := s.requests ++ [(request.replica, operation id key request)]
      issued := Function.update s.issued id.process (Function.update (s.issued id.process)
        request.requestID (some ⟨id, request.replica, s.instant⟩)) }
  | none => s

end State

variable (C : Clocks d.serverCount)

/-- The steps of a lease take responses from the network, and put requests with new numbers on it. -/
def stepLease (s : State d) (id : LeaseID) (a : d.package.Act) :
    Option (State d) :=
  match s.leases id with
  | none => none
  | some l =>
    let outgoing := d.package.outgoing l a
    let incoming := d.package.incoming a
    if (∀ x ∈ incoming, (x.1, id.process, x.2) ∈ s.responses) ∧
        ∀ request ∈ outgoing, s.nextRequestID id.process ≤ request.requestID then
      (d.package.step (C.client id.process s.instant) l a).map fun l' =>
        ((s.setLease id l').consume id.process incoming).send id (d.package.key l) outgoing
    else none

/-- One step of the system. -/
def step (s : State d) : Act d → Option (State d)
  | .advance => some { s with
      instant := s.instant + 1
      servers := fun r => { s.servers r with clock := C.server r (s.instant + 1) } }
  | .server r a => if isLocal (s.servers r).clock a then s.stepServer r a else none
  | .deliver k =>
    match s.requests[k]? with
    | some (r, op) =>
      { s with requests := s.requests.eraseIdx k }.stepServer r (.dequeue (d.assign r op.key) op)
    | none => none
  | .refuse k =>
    match s.requests[k]? with
    | some (r, op) =>
      if (s.servers r).phase = .quarantine then
        some { s with
          requests := s.requests.eraseIdx k
          responses := s.responses ++
            [(r, op.leaseID.process, statusResponse op LeaseStatus.notReady)] }
      else none
    | none => none
  | .respond r i =>
    match (s.servers r).workers i with
    | .reply job response =>
      { s with responses := s.responses ++ [(r, job.op.leaseID.process, response)] }.stepServer r
        (.respond i)
    | _ => none
  | .activate r =>
    if s.startedAt r + restartQuarantineDuration ≤ (s.servers r).clock then
      s.stepServer r .activate
    else none
  | .crash r => some { s with
      servers := Function.update s.servers r (.init _ _ (s.servers r).clock)
      startedAt := Function.update s.startedAt r (s.servers r).clock
      memory := Function.update s.memory r (s.view r) }
  | .loseRequest k => some { s with requests := s.requests.eraseIdx k }
  | .loseResponse k => some { s with responses := s.responses.eraseIdx k }
  | .acquire id key ttlMS =>
    match s.leases id with
    | none => some (s.setLease id (d.package.init key ttlMS (C.client id.process s.instant)))
    | some _ => none
  | .lease id a => stepLease C s id a

/-- The lease is locally valid: its lifecycle is active, and its client's clock is before
`validUntil`. -/
def Valid (s : State d) (id : LeaseID) (key : Nat) : Prop :=
  ∃ l ∈ s.leases id, d.package.key l = key ∧ d.package.lifecycle l = .active ∧
    C.client id.process s.instant < d.package.validUntil l

instance (s : State d) (id : LeaseID) (key : Nat) : Decidable (Valid C s id key) :=
  inferInstanceAs (Decidable (∃ _ ∈ _, _))

end Model

end Cluster

end RedLease
