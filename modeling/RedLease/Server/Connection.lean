import RedLease.Server.Answers

/-!
# Connections

The whole server: the threads of `Concurrent.lean` and, for each accepted connection, the two
goroutines of `server/connection.go`, `receiveRequests` and `sendResponses`. A connection can send
any bytes at any pace, stop reading, or go away. The queues between the goroutines are rings, which
`MpscRing` proves to be bounded first-in, first-out queues, and they are lists here. The listener is
the step `accept`; it never sees a permanent error.

The three places from which the source calls `fail` are the permanent error of the listener, the
underflow in `releaseKeys`, and a response that `encodeResponse` rejects.

* **`System.step_inv`**: every step keeps the invariant of the server, and every response that is
  queued or on its way can be encoded.
* **`clients_cannot_fail`**: no client can make the server fail, and a malformed frame ends only the
  connection it came from.
-/

namespace RedLease.Server

open Lib LeaseShard

/-- `shardQueueCapacity`. -/
def shardQueueCapacity : Nat := 256

/-- `responseQueueCapacity`. -/
def responseQueueCapacity : Nat := 4096

/-! ## Sessions -/

/-- What ends `receiveRequests`. -/
inductive ReadError where
  | eof
  | unexpectedEOF
  | closed
  | unavailable
  | malformed (reason : Malformed)

/-- Where `receiveRequests` stands: in `ReadFrame`, before the check of the phase, before the
decoding, before the second check of the phase, in the loop of `enqueueResponse` or in that of
`dispatch`, or ended. -/
inductive Reader where
  | read
  | check (frame : List UInt8)
  | decode (frame : List UInt8)
  | phase (op : Operation)
  | enqueue (response : Response)
  | dispatch (op : Operation)
  | stopped

/-- Where `sendResponses` stands, and after it the end of `runConnection` and
`discardResponses`. -/
inductive Writer where
  | take
  | wait
  | buffer (response : Response)
  | next
  | flush
  | returned
  | closing
  | discard
  | done

/-- `connectionSession` with its connection. -/
structure Session where
  /-- The bytes that have arrived and are not consumed. -/
  input : List UInt8
  /-- No more bytes will arrive. -/
  eof : Bool
  reader : Reader
  recvDone : Option ReadError
  respQueue : List Response
  writer : Writer
  /-- The context of the session is cancelled. -/
  cancelled : Bool
  connClosed : Bool
  pending : Nat

/-- A new session of `runConnection`. -/
def Session.start : Session := ⟨[], false, .read, none, [], .take, false, false, 0⟩

/-- The request reader ends with an error for the writer. -/
def Session.stop (ss : Session) (err : ReadError) : Session :=
  { ss with reader := .stopped, recvDone := some err }

/-- What the outside decides in a step of the writer: which case of the `select` is taken, and
whether a write to the connection succeeds. -/
inductive Choice where
  | ready | responsesDone | recvDone | ctxDone | written | writeFailed
  deriving DecidableEq

/-- `unavailableError`. -/
def Phase.unavailable (phase : Phase) : Bool :=
  match phase with
  | .failed | .closed => true
  | _ => false

/-- The steps of `sendResponses` and what follows it. `none` as the second component means that
`encodeResponse` rejected the response and the server has to fail. -/
def Session.writerStep (phase : Phase) (ss : Session) (choice : Choice) :
    Option (Session × Option Unit) :=
  match ss.writer with
  | .take =>
    match ss.respQueue with
    | r :: rest => some ({ ss with respQueue := rest, writer := .buffer r }, some ())
    | [] => some ({ ss with writer := .wait }, some ())
  | .wait =>
    match choice with
    | .ready => some ({ ss with writer := .take }, some ())
    | .responsesDone =>
      match ss.reader, ss.pending, ss.respQueue with
      | .stopped, 0, r :: rest =>
        some ({ ss with respQueue := rest, writer := .buffer r }, some ())
      | .stopped, 0, [] => some ({ ss with writer := .returned }, some ())
      | _, _, _ => none
    | .recvDone =>
      match ss.recvDone with
      | some .eof => some ({ ss with recvDone := none, writer := .take }, some ())
      | some _ => some ({ ss with recvDone := none, writer := .returned }, some ())
      | none => none
    | .ctxDone =>
      if ss.cancelled || phase.unavailable then some ({ ss with writer := .returned }, some ())
      else none
    | _ => none
  | .buffer r =>
    if phase.unavailable then some ({ ss with writer := .returned }, some ())
    else
      match encodeResponse r with
      | .error _ => some ({ ss with writer := .returned }, none)
      | .ok _ =>
        match choice with
        | .written => some ({ ss with writer := .next }, some ())
        | .writeFailed => some ({ ss with writer := .returned }, some ())
        | _ => none
  | .next =>
    match ss.respQueue with
    | r :: rest => some ({ ss with respQueue := rest, writer := .buffer r }, some ())
    | [] => some ({ ss with writer := .flush }, some ())
  | .flush =>
    match choice with
    | .written => some ({ ss with writer := .take }, some ())
    | .writeFailed => some ({ ss with writer := .returned }, some ())
    | _ => none
  | .returned =>
    some ({ ss with cancelled := true, connClosed := true, writer := .closing }, some ())
  | .closing =>
    match ss.reader with
    | .stopped => some ({ ss with writer := .discard }, some ())
    | _ => none
  | .discard =>
    match ss.pending, ss.respQueue with
    | 0, _ :: rest => some ({ ss with respQueue := rest }, some ())
    | 0, [] => some ({ ss with writer := .done }, some ())
    | _, _ => none
  | .done => none

/-! ## The whole server -/

/-- A server with its shard queues and its connections. -/
structure System (n m : Nat) where
  server : State n m
  queues : Fin n → List Operation
  sessions : Nat → Option Session

/-- A step of the server, of a connection or of one of its clients. -/
inductive System.Event (n m : Nat) where
  /-- A step of the server's own threads. -/
  | server (a : Act n m)
  /-- The worker takes the next operation of its queue. -/
  | dequeue (i : Fin n)
  /-- The worker checks the phase. -/
  | check (i : Fin n)
  /-- The worker is in the loop of `enqueueResponse`. -/
  | respond (i : Fin n)
  | accept (c : Nat)
  /-- Bytes arrive on a connection. -/
  | receive (c : Nat) (bytes : List UInt8)
  /-- The peer is gone. -/
  | hangup (c : Nat)
  | reader (c : Nat)
  | writer (c : Nat) (choice : Choice)
  /-- `closeConnections` reaches the connection. -/
  | closeConn (c : Nat)

/-- The steps that concern only the server's own threads. -/
def Act.internal {n m : Nat} : Act n m → Bool
  | .dequeue _ _ | .check _ | .respond _ => false
  | _ => true

namespace System

variable {n m : Nat}

/-- No connection has been accepted. -/
def init (n m : Nat) (clock : Time) : System n m where
  server := .init n m clock
  queues _ := []
  sessions _ := none

/-- Session `c` becomes `ss`. -/
def setSession (s : System n m) (c : Nat) (ss : Session) : System n m :=
  { s with sessions := Function.update s.sessions c (some ss) }

/-- The server becomes `server`. -/
def setServer (s : System n m) (server : State n m) : System n m := { s with server }

/-- `session.pending.Done()`. -/
def donePending (s : System n m) (c : Nat) : System n m :=
  match s.sessions c with
  | some ss => s.setSession c { ss with pending := ss.pending - 1 }
  | none => s

/-- A step of `receiveRequests` on connection `c`. -/
def readerStep (cfg : Config) (assign : Nat → Fin n) (fb : Accessors) (s : System n m) (c : Nat)
    (ss : Session) : Option (System n m) :=
  match ss.reader with
  | .read =>
    match readFrame ss.input with
    | .complete frame rest => some (s.setSession c { ss with input := rest, reader := .check frame })
    | .invalid size => some (s.setSession c (ss.stop (.malformed (.payloadSize size))))
    | .incomplete =>
      if ss.connClosed then some (s.setSession c (ss.stop .closed))
      else if ss.eof then
        some (s.setSession c (ss.stop (if ss.input.isEmpty then .eof else .unexpectedEOF)))
      else none
  | .check frame =>
    if s.server.phase.unavailable then some (s.setSession c (ss.stop .unavailable))
    else some (s.setSession c { ss with reader := .decode frame })
  | .decode frame =>
    match decodeRequest fb frame c with
    | .error reason => some (s.setSession c (ss.stop (.malformed reason)))
    | .ok (.getTTL requestID) =>
      some (s.setSession c { ss with
        reader := .enqueue ⟨requestID, ClientOperation.getTTL, LeaseStatus.ok, cfg.maxTTL⟩ })
    | .ok (.lease op) => some (s.setSession c { ss with reader := .phase op })
  | .phase op =>
    if s.server.phase = .quarantine then
      some (s.setSession c { ss with reader := .enqueue (statusResponse op LeaseStatus.notReady) })
    else some (s.setSession c { ss with reader := .dispatch op, pending := ss.pending + 1 })
  | .enqueue r =>
    if ss.respQueue.length < responseQueueCapacity then
      some (s.setSession c { ss with respQueue := ss.respQueue ++ [r], reader := .read })
    else if ss.cancelled || s.server.phase.unavailable then
      some (s.setSession c { ss with reader := .stopped })
    else none
  | .dispatch op =>
    let i := assign op.key
    if (s.queues i).length < shardQueueCapacity then
      some { s.setSession c { ss with reader := .read } with
        queues := Function.update s.queues i (s.queues i ++ [op]) }
    else if ss.cancelled || s.server.phase.unavailable then
      some (s.setSession c { ss with reader := .stopped, pending := ss.pending - 1 })
    else none
  | .stopped => none

/-- A worker with a response is in `enqueueResponse`, and then done with its operation. -/
def respondStep (s : System n m) (i : Fin n) (job : Job) (r : Response) : Option (System n m) :=
  match s.sessions job.op.session with
  | some ss =>
    let idle := s.server.setWorker i .idle
    if ss.respQueue.length < responseQueueCapacity then
      some ((s.setServer idle).setSession job.op.session
        { ss with respQueue := ss.respQueue ++ [r], pending := ss.pending - 1 })
    else if ss.cancelled || s.server.phase.unavailable then
      some ((s.setServer idle).setSession job.op.session { ss with pending := ss.pending - 1 })
    else none
  | none => none

/-- One step of a thread of the server, of a session or of a client. -/
def step (cfg : Config) (assign : Nat → Fin n) (fb : Accessors) (s : System n m) :
    Event n m → Option (System n m)
  | .server a =>
    if a.internal then
      match Server.step cfg assign s.server a with
      | some server => some (s.setServer server)
      | none => none
    else none
  | .dequeue i =>
    match s.queues i with
    | op :: rest =>
      match Server.step cfg assign s.server (.dequeue i op) with
      | some server =>
        some { s.setServer server with queues := Function.update s.queues i rest }
      | none => none
    | [] => none
  | .check i =>
    match s.server.workers i with
    | .dequeued op =>
      match Server.step cfg assign s.server (.check i) with
      | some server =>
        some (if s.server.phase = .active then s.setServer server
          else (s.setServer server).donePending op.session)
      | none => none
    | _ => none
  | .respond i =>
    match s.server.workers i with
    | .reply job r => s.respondStep i job r
    | _ => none
  | .accept c =>
    match s.sessions c with
    | none => if s.server.phase.unavailable then none else some (s.setSession c .start)
    | some _ => none
  | .receive c bytes =>
    match s.sessions c with
    | some ss => some (s.setSession c { ss with input := ss.input ++ bytes })
    | none => none
  | .hangup c =>
    match s.sessions c with
    | some ss => some (s.setSession c { ss with eof := true })
    | none => none
  | .reader c =>
    match s.sessions c with
    | some ss => s.readerStep cfg assign fb c ss
    | none => none
  | .writer c choice =>
    match s.sessions c with
    | some ss =>
      match ss.writerStep s.server.phase choice with
      | some (ss, some ()) => some (s.setSession c ss)
      | some (ss, none) =>
        some ((s.setServer { s.server with toShared := s.server.toShared.fail }).setSession c ss)
      | none => none
    | none => none
  | .closeConn c =>
    match s.sessions c with
    | some ss => some (s.setSession c { ss with connClosed := true })
    | none => none

end System

/-! ## The invariant -/

/-- All responses of a session can be encoded. -/
structure Session.Encodes (ss : Session) : Prop where
  queued : ∀ r ∈ ss.respQueue, Encodable r
  reader : ∀ r, ss.reader = .enqueue r → Encodable r
  writer : ∀ r, ss.writer = .buffer r → Encodable r

/-- A session that gets a response for its queue. -/
theorem Session.Encodes.push {ss : Session} (h : ss.Encodes) {r : Response} (hr : Encodable r) :
    ∀ r' ∈ ss.respQueue ++ [r], Encodable r' := by
  intro r' hr'
  rcases List.mem_append.mp hr' with hm | hm
  · exact h.queued r' hm
  · rw [List.mem_singleton.mp hm]
    exact hr

/-- The first response of the queue goes to the writer. -/
theorem Session.Encodes.pop {ss : Session} (h : ss.Encodes) {r : Response} {rest : List Response}
    (hq : ss.respQueue = r :: rest) :
    Session.Encodes { ss with respQueue := rest, writer := .buffer r } where
  queued r' hr' := h.queued r' (hq ▸ List.mem_cons_of_mem r hr')
  reader := h.reader
  writer := by
    rintro r' ⟨⟩
    exact h.queued r (hq ▸ List.mem_cons_self)

/-- A writer's step keeps responses encodable, and does not meet one that it cannot encode. -/
theorem Session.Encodes.writerStep {phase : Phase} {ss ss' : Session} {choice : Choice}
    {o : Option Unit} (h : ss.Encodes) (hs : ss.writerStep phase choice = some (ss', o)) :
    ss'.Encodes ∧ o = some () := by
  have local' : ∀ {w : Writer}, (∀ r, w ≠ .buffer r) →
      Session.Encodes { ss with writer := w } := fun hw =>
    ⟨h.queued, h.reader, fun r he => absurd he (hw r)⟩
  unfold Session.writerStep at hs
  cases hw : ss.writer with
  | take =>
    simp only [hw] at hs
    split at hs
    · rename_i r rest hq
      cases hs
      exact ⟨h.pop hq, rfl⟩
    · cases hs
      exact ⟨local' nofun, rfl⟩
  | wait =>
    simp only [hw] at hs
    cases choice with
    | ready => cases hs; exact ⟨local' nofun, rfl⟩
    | responsesDone =>
      simp only at hs
      split at hs
      · rename_i r rest _ _ hq
        cases hs
        exact ⟨h.pop hq, rfl⟩
      · cases hs
        exact ⟨local' nofun, rfl⟩
      · cases hs
    | recvDone =>
      simp only at hs
      split at hs
      · cases hs
        exact ⟨⟨h.queued, h.reader, nofun⟩, rfl⟩
      · cases hs
        exact ⟨⟨h.queued, h.reader, nofun⟩, rfl⟩
      · cases hs
    | ctxDone =>
      simp only at hs
      split_ifs at hs
      cases hs
      exact ⟨local' nofun, rfl⟩
    | written => cases hs
    | writeFailed => cases hs
  | buffer r =>
    simp only [hw] at hs
    obtain ⟨frame, hf⟩ := h.writer r hw
    split_ifs at hs
    · cases hs
      exact ⟨local' nofun, rfl⟩
    · rw [hf] at hs
      cases choice with
      | written | writeFailed => cases hs; exact ⟨local' nofun, rfl⟩
      | _ => cases hs
  | next =>
    simp only [hw] at hs
    split at hs
    · rename_i r rest hq
      cases hs
      exact ⟨h.pop hq, rfl⟩
    · cases hs
      exact ⟨local' nofun, rfl⟩
  | flush =>
    simp only [hw] at hs
    cases choice with
    | written | writeFailed => cases hs; exact ⟨local' nofun, rfl⟩
    | _ => cases hs
  | returned =>
    simp only [hw] at hs
    cases hs
    exact ⟨⟨h.queued, h.reader, nofun⟩, rfl⟩
  | closing =>
    simp only [hw] at hs
    split at hs
    · cases hs
      exact ⟨local' nofun, rfl⟩
    · cases hs
  | discard =>
    simp only [hw] at hs
    split at hs
    · rename_i r rest _ hq
      cases hs
      exact ⟨⟨fun r' hr' => h.queued r' (hq ▸ List.mem_cons_of_mem r hr'), h.reader,
        fun r' he => h.writer r' (hw ▸ he)⟩, rfl⟩
    · cases hs
      exact ⟨local' nofun, rfl⟩
    · cases hs
  | done =>
    simp only [hw] at hs
    cases hs

/-- The server is sound, and every response can be encoded. -/
structure System.Inv {n m : Nat} (cfg : Config) (assign : Nat → Fin n) (s : System n m) :
    Prop where
  server : Server.Inv cfg assign s.server
  workers : ∀ i, (s.server.workers i).Answers
  sessions : ∀ c ss, s.sessions c = some ss → ss.Encodes

namespace System

variable {n m : Nat} {cfg : Config} {assign : Nat → Fin n} {fb : Accessors} {s s' : System n m}

theorem inv_init (cfg : Config) (assign : Nat → Fin n) (t₀ : Time) :
    Inv cfg assign (init n m t₀) where
  server := Server.inv_init cfg assign t₀
  workers _ := trivial
  sessions _ _ := nofun

theorem Inv.setSession (h : Inv cfg assign s) {c : Nat} {ss : Session} (hs : ss.Encodes) :
    Inv cfg assign (s.setSession c ss) where
  server := h.server
  workers := h.workers
  sessions := (Function.forall_update_iff s.sessions fun _ o =>
    ∀ ss, o = some ss → ss.Encodes).mpr ⟨fun _ he => Option.some.inj he ▸ hs, fun c _ => h.sessions c⟩

theorem Inv.setServer (h : Inv cfg assign s) {server : State n m}
    (hs : Server.Inv cfg assign server) (hw : ∀ i, (server.workers i).Answers) :
    Inv cfg assign (s.setServer server) := ⟨hs, hw, h.sessions⟩

/-- A step of the server's threads. -/
theorem Inv.step_server (h : Inv cfg assign s) {a : Act n m} {server : State n m}
    (hs : Server.step cfg assign s.server a = some server) : Inv cfg assign (s.setServer server) :=
  h.setServer (step_sound h.server hs).1 (step_answers h.server h.workers hs)

theorem Inv.donePending (h : Inv cfg assign s) (c : Nat) : Inv cfg assign (s.donePending c) := by
  unfold System.donePending
  split
  · rename_i ss hc
    obtain ⟨h1, h2, h3⟩ := h.sessions c ss hc
    exact h.setSession ⟨h1, h2, h3⟩
  · exact h

/-- A step of the request reader. -/
theorem Inv.readerStep (h : Inv cfg assign s) {c : Nat} {ss : Session}
    (hc : s.sessions c = some ss) (hs : s.readerStep cfg assign fb c ss = some s') :
    Inv cfg assign s' := by
  obtain ⟨hq, hr, hw⟩ := h.sessions c ss hc
  have stop : ∀ err, Inv cfg assign (s.setSession c (ss.stop err)) := fun err =>
    h.setSession ⟨hq, nofun, hw⟩
  unfold System.readerStep at hs
  cases hreader : ss.reader with
  | read =>
    simp only [hreader] at hs
    split at hs
    · cases hs
      exact h.setSession ⟨hq, nofun, hw⟩
    · cases hs
      exact stop _
    · split_ifs at hs
      all_goals cases hs; exact stop _
  | check frame =>
    simp only [hreader] at hs
    split_ifs at hs
    · cases hs
      exact stop _
    · cases hs
      exact h.setSession ⟨hq, nofun, hw⟩
  | decode frame =>
    simp only [hreader] at hs
    split at hs
    · cases hs
      exact stop _
    · cases hs
      refine h.setSession ⟨hq, ?_, hw⟩
      rintro r ⟨⟩
      exact encodable_iff.mpr ⟨by show (0 : UInt8) ≤ 5; decide, by show (1 : UInt8) ≤ 4; decide,
        by show (4 : UInt8) ≤ 4; decide⟩
    · cases hs
      exact h.setSession ⟨hq, nofun, hw⟩
  | phase op =>
    simp only [hreader] at hs
    split_ifs at hs
    · cases hs
      refine h.setSession ⟨hq, ?_, hw⟩
      rintro r ⟨⟩
      exact (answers_statusResponse op (by decide)).encodable
    · cases hs
      exact h.setSession ⟨hq, nofun, hw⟩
  | enqueue r =>
    simp only [hreader] at hs
    split_ifs at hs
    · cases hs
      exact h.setSession ⟨Session.Encodes.push ⟨hq, hr, hw⟩ (hr r hreader), nofun, hw⟩
    · cases hs
      exact h.setSession ⟨hq, nofun, hw⟩
  | dispatch op =>
    simp only [hreader] at hs
    split_ifs at hs
    · cases hs
      have hss : Inv cfg assign (s.setSession c { ss with reader := .read }) :=
        h.setSession ⟨hq, nofun, hw⟩
      exact ⟨hss.server, hss.workers, hss.sessions⟩
    · cases hs
      exact h.setSession ⟨hq, nofun, hw⟩
  | stopped =>
    simp only [hreader] at hs
    cases hs

/-- A worker hands over its response. -/
theorem Inv.respondStep (h : Inv cfg assign s) {i : Fin n} {job : Job} {r : Response}
    (hw : s.server.workers i = .reply job r) (hs : s.respondStep i job r = some s') :
    Inv cfg assign s' := by
  have hstep : Server.step cfg assign s.server (.respond i) =
      some (s.server.setWorker i .idle) := by
    simp only [Server.step, hw]
  have hsrv := h.step_server hstep
  have hr : Encodable r := by
    have := h.workers i
    rw [hw] at this
    exact this.encodable
  unfold System.respondStep at hs
  split at hs
  · rename_i ss hc
    have he := h.sessions _ ss hc
    dsimp only at hs
    split_ifs at hs
    · cases hs
      exact hsrv.setSession ⟨he.push hr, he.reader, he.writer⟩
    · cases hs
      exact hsrv.setSession ⟨he.queued, he.reader, he.writer⟩
  · cases hs

/-- **Every step keeps the invariant.** -/
theorem step_inv (h : Inv cfg assign s) {e : Event n m} (hs : step cfg assign fb s e = some s') :
    Inv cfg assign s' := by
  cases e with
  | server a =>
    simp only [step] at hs
    split_ifs at hs
    split at hs
    · rename_i server hstep
      cases hs
      exact h.step_server hstep
    · cases hs
  | dequeue i =>
    simp only [step] at hs
    split at hs
    · split at hs
      · rename_i server hstep
        cases hs
        obtain ⟨h1, h2, h3⟩ := h.step_server hstep
        exact ⟨h1, h2, h3⟩
      · cases hs
    · cases hs
  | check i =>
    simp only [step] at hs
    split at hs
    · split at hs
      · rename_i op _ server hstep
        cases hs
        split_ifs
        · exact h.step_server hstep
        · exact (h.step_server hstep).donePending _
      · cases hs
    · cases hs
  | respond i =>
    simp only [step] at hs
    split at hs
    · rename_i job r hw
      exact h.respondStep hw hs
    · cases hs
  | accept c =>
    simp only [step] at hs
    split at hs
    · split_ifs at hs
      cases hs
      exact h.setSession ⟨nofun, nofun, nofun⟩
    · cases hs
  | receive c bytes | hangup c =>
    simp only [step] at hs
    split at hs
    · rename_i ss hc
      obtain ⟨h1, h2, h3⟩ := h.sessions c ss hc
      cases hs
      exact h.setSession ⟨h1, h2, h3⟩
    · cases hs
  | reader c =>
    simp only [step] at hs
    split at hs
    · rename_i ss hc
      exact h.readerStep hc hs
    · cases hs
  | writer c choice =>
    simp only [step] at hs
    split at hs
    · rename_i ss hc
      split at hs
      · rename_i ss' hw
        cases hs
        exact h.setSession ((h.sessions c ss hc).writerStep hw).1
      · rename_i ss' hw
        cases ((h.sessions c ss hc).writerStep hw).2
      · cases hs
    · cases hs
  | closeConn c =>
    simp only [step] at hs
    split at hs
    · rename_i ss hc
      obtain ⟨h1, h2, h3⟩ := h.sessions c ss hc
      cases hs
      exact h.setSession ⟨h1, h2, h3⟩
    · cases hs

/-! ## What clients can do -/

/-- The next step of the session's reader meets a malformed frame. -/
def Malformed (fb : Accessors) (c : Nat) (ss : Session) (reason : Server.Malformed) : Prop :=
  (∃ size, ss.reader = .read ∧ readFrame ss.input = .invalid size ∧ reason = .payloadSize size) ∨
  ∃ frame, ss.reader = .decode frame ∧ decodeRequest fb frame c = .error reason

/-- The server has not failed and nothing that is under way can make it fail: the counter of keys
covers every release, no heap operation left its heap, and every response can be encoded; and a
malformed frame stops the reader of its own connection and changes nothing else. -/
structure Unharmed (cfg : Config) (assign : Nat → Fin n) (fb : Accessors) (s : System n m) :
    Prop where
  phase : s.server.phase ≠ .failed
  accounted : Accounted cfg s.server
  heaps : ∀ i, (s.server.shards i).panicked = false
  workers : ∀ i job r, s.server.workers i = .reply job r → Encodable r
  sessions : ∀ c ss, s.sessions c = some ss → ss.Encodes
  malformed : ∀ c ss reason s', s.sessions c = some ss → Malformed fb c ss reason →
    step cfg assign fb s (.reader c) = some s' →
    s'.server = s.server ∧ s'.queues = s.queues ∧
      (∀ c', c' ≠ c → s'.sessions c' = s.sessions c') ∧
      s'.sessions c = some (ss.stop (.malformed reason))

/-- A malformed frame stops its reader. -/
theorem readerStep_malformed {c : Nat} {ss : Session} {reason : Server.Malformed}
    (h : Malformed fb c ss reason) : s.readerStep cfg assign fb c ss =
      some (s.setSession c (ss.stop (.malformed reason))) := by
  unfold System.readerStep
  rcases h with ⟨size, hr, hf, rfl⟩ | ⟨frame, hr, hd⟩
  · simp only [hr, hf]
  · simp only [hr, hd]

/-- **Clients cannot fail the server**: whatever bytes arrive on any number of connections, at any
pace and in any interleaving with the server's threads. -/
theorem clients_cannot_fail (cfg : Config) (assign : Nat → Fin n) (fb : Accessors) (t₀ : Time)
    (events : List (Event n m)) {s : System n m}
    (h : Trans.exec (step cfg assign fb) (init n m t₀) events = some s) :
    Unharmed cfg assign fb s := by
  have hi : Inv cfg assign s :=
    Trans.exec_invariant (fun hi hs => step_inv hi hs) (inv_init cfg assign t₀) h
  refine ⟨hi.server.phase, hi.server.accounted, fun i => (hi.server.wf i).safe, fun i job r hw => ?_,
    hi.sessions, fun c ss reason s' hc hm hs => ?_⟩
  · have := hi.workers i
    rw [hw] at this
    exact this.encodable
  · simp only [step, hc, readerStep_malformed hm] at hs
    cases hs
    refine ⟨rfl, rfl, fun c' hne => ?_, ?_⟩
    · exact Function.update_of_ne hne _ _
    · exact Function.update_self _ _ _

/-- A request for the TTL with the ID `id`. -/
def getTTLFrame (id : UInt8) : List UInt8 :=
  [28, 0, 0, 0, 12, 0, 0, 0, 8, 0, 16, 0, 8, 0, 7, 0, 8, 0, 0, 0, 0, 0, 0, 4, id, 0, 0, 0, 0, 0, 0, 0]

/-- One connection asks for the TTL and gets the response into its write buffer, while another sends
a frame whose size is out of range. -/
def garbageEvents : List (Event 2 1) :=
  [.accept 0, .accept 1, .receive 0 (getTTLFrame 7), .receive 1 [255, 255, 255, 255],
    .reader 0, .reader 0, .reader 1, .reader 0, .reader 0, .writer 1 .ready,
    .writer 1 .recvDone, .writer 0 .ready]

theorem clients_cannot_fail_garbageEvents :
    ∃ s, Trans.exec (step tinyConfig (Fin.ofNat 2) goAccessors) (init 2 1 0) garbageEvents =
        some s ∧ Unharmed tinyConfig (Fin.ofNat 2) goAccessors s ∧
      (s.sessions 0).map (·.writer) =
        some (.buffer ⟨7, ClientOperation.getTTL, LeaseStatus.ok, 5000⟩) ∧
      (s.sessions 1).map (·.writer) = some .returned :=
  ⟨_, rfl, clients_cannot_fail tinyConfig (Fin.ofNat 2) goAccessors 0 garbageEvents rfl, rfl,
    rfl⟩

end System

end RedLease.Server
