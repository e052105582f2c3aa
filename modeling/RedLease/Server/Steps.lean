import RedLease.Server.Connection

/-!
# What a step of the whole server can do

Inversion of the steps of `Connection.lean`, for each goroutine of a session and for the system, so
that an invariant is a case analysis and no step function has to be unfolded again.

The operations of a shard are the one its worker has taken and those in its queue (`inShard`). An
operation joins them at the end when it is dispatched and leaves them at the front when its worker is
done with it: **`System.flow`**.
-/

namespace RedLease.Server

open Lib LeaseShard

/-! ## The request reader -/

/-- Why `receiveRequests` reports an error. -/
inductive Ends (fb : Accessors) (phase : Phase) (c : Nat) (ss : Session) : ReadError → Prop
  | invalid (size : Nat) (hr : ss.reader = .read) (hf : readFrame ss.input = .invalid size) :
      Ends fb phase c ss (.malformed (.payloadSize size))
  | closed (hr : ss.reader = .read) (hc : ss.connClosed = true) : Ends fb phase c ss .closed
  | eof (hr : ss.reader = .read) (hf : readFrame ss.input = .incomplete) (he : ss.eof = true) :
      Ends fb phase c ss (if ss.input.isEmpty then .eof else .unexpectedEOF)
  | unavailable (frame : List UInt8) (hr : ss.reader = .check frame)
      (hp : phase.unavailable = true) : Ends fb phase c ss .unavailable
  | malformed (frame : List UInt8) (reason : Malformed) (hr : ss.reader = .decode frame)
      (hd : decodeRequest fb frame c = .error reason) : Ends fb phase c ss (.malformed reason)

/-- All that the request reader can do to its session outside `dispatch`. -/
inductive ReaderStep (cfg : Config) (fb : Accessors) (phase : Phase) (c : Nat) (ss : Session) :
    Session → Prop
  | read (frame rest : List UInt8) (hr : ss.reader = .read)
      (hf : readFrame ss.input = .complete frame rest) :
      ReaderStep cfg fb phase c ss { ss with input := rest, reader := .check frame }
  | ended (err : ReadError) (h : Ends fb phase c ss err) : ReaderStep cfg fb phase c ss (ss.stop err)
  | checked (frame : List UInt8) (hr : ss.reader = .check frame) (hp : phase.unavailable = false) :
      ReaderStep cfg fb phase c ss { ss with reader := .decode frame }
  | getTTL (frame : List UInt8) (requestID : Nat) (hr : ss.reader = .decode frame)
      (hd : decodeRequest fb frame c = .ok (.getTTL requestID)) :
      ReaderStep cfg fb phase c ss { ss with
        reader := .enqueue ⟨requestID, ClientOperation.getTTL, LeaseStatus.ok, cfg.maxTTL⟩ }
  | lease (frame : List UInt8) (op : Operation) (hr : ss.reader = .decode frame)
      (hd : decodeRequest fb frame c = .ok (.lease op)) :
      ReaderStep cfg fb phase c ss { ss with reader := .phase op }
  | refused (op : Operation) (hr : ss.reader = .phase op) (hp : phase = .quarantine) :
      ReaderStep cfg fb phase c ss { ss with
        reader := .enqueue (statusResponse op LeaseStatus.notReady) }
  | admitted (op : Operation) (hr : ss.reader = .phase op) (hp : phase ≠ .quarantine) :
      ReaderStep cfg fb phase c ss { ss with reader := .dispatch op, pending := ss.pending + 1 }
  | enqueued (r : Response) (hr : ss.reader = .enqueue r)
      (hroom : ss.respQueue.length < responseQueueCapacity) :
      ReaderStep cfg fb phase c ss { ss with respQueue := ss.respQueue ++ [r], reader := .read }
  | gaveUp (r : Response) (hr : ss.reader = .enqueue r)
      (hc : (ss.cancelled || phase.unavailable) = true) :
      ReaderStep cfg fb phase c ss { ss with reader := .stopped }

theorem ReaderStep.reader_ne_dispatch {cfg : Config} {fb : Accessors} {phase : Phase} {c : Nat}
    {ss ss' : Session} (h : ReaderStep cfg fb phase c ss ss') (op : Operation) :
    ss.reader ≠ .dispatch op := by
  intro hop
  cases h with
  | ended err h =>
    cases h with
    | invalid size hr | closed hr | eof hr | unavailable frame hr | malformed frame reason hr =>
      rw [hop] at hr; cases hr
  | read frame rest hr | checked frame hr | getTTL frame requestID hr | lease frame op hr
  | refused op hr | admitted op hr | enqueued r hr | gaveUp r hr => rw [hop] at hr; cases hr

theorem ReaderStep.not_stopped {cfg : Config} {fb : Accessors} {phase : Phase} {c : Nat}
    {ss ss' : Session} (h : ReaderStep cfg fb phase c ss ss') : ss.reader ≠ .stopped := by
  intro hs
  cases h with
  | ended err h => cases h <;> simp_all
  | _ => simp_all

theorem ReaderStep.writer_eq {cfg : Config} {fb : Accessors} {phase : Phase} {c : Nat}
    {ss ss' : Session} (h : ReaderStep cfg fb phase c ss ss') : ss'.writer = ss.writer := by
  cases h <;> rfl

/-! ## The response writer -/

/-- All that `sendResponses`, the end of `runConnection` and `discardResponses` can do to their
session. -/
inductive WriterStep (phase : Phase) (ss : Session) (choice : Choice) : Session → Prop
  | popped (r : Response) (rest : List Response)
      (hw : ss.writer = .take ∨ ss.writer = .next ∨
        ss.writer = .wait ∧ ss.reader = .stopped ∧ ss.pending = 0)
      (hq : ss.respQueue = r :: rest) :
      WriterStep phase ss choice { ss with respQueue := rest, writer := .buffer r }
  | waiting (hw : ss.writer = .take) (hq : ss.respQueue = []) :
      WriterStep phase ss choice { ss with writer := .wait }
  | woken (hw : ss.writer = .wait) : WriterStep phase ss choice { ss with writer := .take }
  | eof (hw : ss.writer = .wait) (hr : ss.recvDone = some .eof) :
      WriterStep phase ss choice { ss with recvDone := none, writer := .take }
  | drained (hw : ss.writer = .wait) (hr : ss.reader = .stopped) (hp : ss.pending = 0)
      (hq : ss.respQueue = []) : WriterStep phase ss choice { ss with writer := .returned }
  | broken (err : ReadError) (hw : ss.writer = .wait) (hr : ss.recvDone = some err)
      (he : err ≠ .eof) : WriterStep phase ss choice { ss with recvDone := none, writer := .returned }
  | cancelled (hw : ss.writer = .wait) (hc : (ss.cancelled || phase.unavailable) = true) :
      WriterStep phase ss choice { ss with writer := .returned }
  | unavailable (r : Response) (hw : ss.writer = .buffer r) (hp : phase.unavailable = true) :
      WriterStep phase ss choice { ss with writer := .returned }
  | rejected (r : Response) (hw : ss.writer = .buffer r) (he : ¬ Encodable r) :
      WriterStep phase ss choice { ss with writer := .returned }
  | buffered (r : Response) (hw : ss.writer = .buffer r) (hp : phase.unavailable = false)
      (he : Encodable r) (hc : choice = .written) :
      WriterStep phase ss choice { ss with writer := .next }
  | writeFailed (hw : (∃ r, ss.writer = .buffer r) ∨ ss.writer = .flush)
      (hc : choice = .writeFailed) : WriterStep phase ss choice { ss with writer := .returned }
  | flushing (hw : ss.writer = .next) (hq : ss.respQueue = []) :
      WriterStep phase ss choice { ss with writer := .flush }
  | flushed (hw : ss.writer = .flush) (hc : choice = .written) :
      WriterStep phase ss choice { ss with writer := .take }
  | closed (hw : ss.writer = .returned) :
      WriterStep phase ss choice { ss with cancelled := true, connClosed := true, writer := .closing }
  | joined (hw : ss.writer = .closing) (hr : ss.reader = .stopped) :
      WriterStep phase ss choice { ss with writer := .discard }
  | discarded (r : Response) (rest : List Response) (hw : ss.writer = .discard)
      (hp : ss.pending = 0) (hq : ss.respQueue = r :: rest) :
      WriterStep phase ss choice { ss with respQueue := rest, writer := .discard }
  | done (hw : ss.writer = .discard) (hp : ss.pending = 0) (hq : ss.respQueue = []) :
      WriterStep phase ss choice { ss with writer := .done }

theorem writerStep_cases {phase : Phase} {ss ss' : Session} {choice : Choice} {o : Option Unit}
    (hs : ss.writerStep phase choice = some (ss', o)) : WriterStep phase ss choice ss' := by
  unfold Session.writerStep at hs
  cases hw : ss.writer with
  | take =>
    simp only [hw] at hs
    split at hs
    · rename_i r rest hq
      cases hs
      exact .popped r rest (Or.inl hw) hq
    · rename_i hq
      cases hs
      exact .waiting hw hq
  | wait =>
    simp only [hw] at hs
    cases choice with
    | ready =>
      cases hs
      exact .woken hw
    | responsesDone =>
      simp only at hs
      split at hs
      · rename_i r rest hr hp hq
        cases hs
        exact .popped r rest (Or.inr (Or.inr ⟨hw, hr, hp⟩)) hq
      · rename_i hr hp hq
        cases hs
        exact .drained hw hr hp hq
      · cases hs
    | recvDone =>
      simp only at hs
      split at hs
      · rename_i hr
        cases hs
        exact .eof hw hr
      · rename_i err hne hr
        cases hs
        exact .broken err hw hr fun he => hne (he ▸ rfl)
      · cases hs
    | ctxDone =>
      simp only at hs
      split_ifs at hs with hc
      cases hs
      exact .cancelled hw hc
    | written => cases hs
    | writeFailed => cases hs
  | buffer r =>
    simp only [hw] at hs
    split_ifs at hs with hp
    · cases hs
      exact .unavailable r hw hp
    · split at hs
      · rename_i err he
        cases hs
        refine .rejected r hw fun ⟨frame, hf⟩ => ?_
        rw [he] at hf
        cases hf
      · rename_i frame hf
        cases choice with
        | written =>
          cases hs
          exact .buffered r hw (Bool.not_eq_true _ ▸ hp) ⟨frame, hf⟩ rfl
        | writeFailed =>
          cases hs
          exact .writeFailed (Or.inl ⟨r, hw⟩) rfl
        | _ => cases hs
  | next =>
    simp only [hw] at hs
    split at hs
    · rename_i r rest hq
      cases hs
      exact .popped r rest (Or.inr (Or.inl hw)) hq
    · rename_i hq
      cases hs
      exact .flushing hw hq
  | flush =>
    simp only [hw] at hs
    cases choice with
    | written =>
      cases hs
      exact .flushed hw rfl
    | writeFailed =>
      cases hs
      exact .writeFailed (Or.inr hw) rfl
    | _ => cases hs
  | returned =>
    simp only [hw] at hs
    cases hs
    exact .closed hw
  | closing =>
    simp only [hw] at hs
    split at hs
    · rename_i hr
      cases hs
      exact .joined hw hr
    · cases hs
  | discard =>
    simp only [hw] at hs
    split at hs
    · rename_i r rest hp hq
      cases hs
      exact .discarded r rest hw hp hq
    · rename_i hp hq
      cases hs
      exact .done hw hp hq
    · cases hs
  | done =>
    simp only [hw] at hs
    cases hs

/-! ## The system -/

/-- The operations in a shard: the one its worker has taken, and the queue. -/
def System.inShard {n m : Nat} (s : System n m) (i : Fin n) : List Operation :=
  (s.server.workers i).operation.toList ++ s.queues i

namespace System

variable {n m : Nat} {cfg : Config} {assign : Nat → Fin n} {fb : Accessors} {s s' : System n m}

@[simp] theorem setServer_server (server : State n m) : (s.setServer server).server = server := rfl

@[simp] theorem setServer_sessions (server : State n m) :
    (s.setServer server).sessions = s.sessions := rfl

@[simp] theorem setSession_sessions (c : Nat) (ss : Session) :
    (s.setSession c ss).sessions = Function.update s.sessions c (some ss) := rfl

/-- All that can happen to a session in a step of its own, outside `dispatch`. -/
inductive SessionStep (cfg : Config) (fb : Accessors) (phase : Phase) (c : Nat) (e : Event n m) :
    Option Session → Session → Prop
  | accepted (he : e = .accept c) (hp : phase.unavailable = false) :
      SessionStep cfg fb phase c e none .start
  | received (ss : Session) (bytes : List UInt8) (he : e = .receive c bytes) :
      SessionStep cfg fb phase c e (some ss) { ss with input := ss.input ++ bytes }
  | hungUp (ss : Session) (he : e = .hangup c) :
      SessionStep cfg fb phase c e (some ss) { ss with eof := true }
  | closed (ss : Session) (he : e = .closeConn c) :
      SessionStep cfg fb phase c e (some ss) { ss with connClosed := true }
  | reader (ss ss' : Session) (he : e = .reader c) (h : ReaderStep cfg fb phase c ss ss') :
      SessionStep cfg fb phase c e (some ss) ss'
  | writer (ss ss' : Session) (choice : Choice) (he : e = .writer c choice)
      (h : WriterStep phase ss choice ss') : SessionStep cfg fb phase c e (some ss) ss'

/-- All that a step of the system can do. -/
inductive Step (cfg : Config) (assign : Nat → Fin n) (fb : Accessors) (s : System n m)
    (e : Event n m) : System n m → Prop
  | threads (a : Act n m) (server : State n m) (he : e = .server a) (ha : a.internal = true)
      (hs : Server.step cfg assign s.server a = some server) :
      Step cfg assign fb s e (s.setServer server)
  | dequeued (i : Fin n) (op : Operation) (rest : List Operation) (server : State n m)
      (he : e = .dequeue i) (hq : s.queues i = op :: rest)
      (hs : Server.step cfg assign s.server (.dequeue i op) = some server) :
      Step cfg assign fb s e { s.setServer server with queues := Function.update s.queues i rest }
  | checked (i : Fin n) (op : Operation) (he : e = .check i)
      (hw : s.server.workers i = .dequeued op) (hp : s.server.phase = .active) :
      Step cfg assign fb s e (s.setServer (s.server.setWorker i (.admitted op)))
  | dropped (i : Fin n) (op : Operation) (he : e = .check i)
      (hw : s.server.workers i = .dequeued op) (hp : s.server.phase ≠ .active) :
      Step cfg assign fb s e ((s.setServer (s.server.setWorker i .idle)).donePending op.session)
  | responded (i : Fin n) (job : Job) (r : Response) (ss : Session) (he : e = .respond i)
      (hw : s.server.workers i = .reply job r) (hc : s.sessions job.op.session = some ss)
      (hroom : ss.respQueue.length < responseQueueCapacity) :
      Step cfg assign fb s e ((s.setServer (s.server.setWorker i .idle)).setSession job.op.session
        { ss with respQueue := ss.respQueue ++ [r], pending := ss.pending - 1 })
  | unanswered (i : Fin n) (job : Job) (r : Response) (ss : Session) (he : e = .respond i)
      (hw : s.server.workers i = .reply job r) (hc : s.sessions job.op.session = some ss)
      (hd : (ss.cancelled || s.server.phase.unavailable) = true) :
      Step cfg assign fb s e ((s.setServer (s.server.setWorker i .idle)).setSession job.op.session
        { ss with pending := ss.pending - 1 })
  | session (c : Nat) (ss' : Session) (server : State n m)
      (hs : SessionStep cfg fb s.server.phase c e (s.sessions c) ss')
      (hserver : server = s.server ∨ server = { s.server with toShared := s.server.toShared.fail }) :
      Step cfg assign fb s e ((s.setServer server).setSession c ss')
  | dispatched (c : Nat) (ss : Session) (op : Operation) (he : e = .reader c)
      (hc : s.sessions c = some ss) (hr : ss.reader = .dispatch op)
      (hroom : (s.queues (assign op.key)).length < shardQueueCapacity) :
      Step cfg assign fb s e { s.setSession c { ss with reader := .read } with
        queues := Function.update s.queues (assign op.key) (s.queues (assign op.key) ++ [op]) }
  | withdrawn (c : Nat) (ss : Session) (op : Operation) (he : e = .reader c)
      (hc : s.sessions c = some ss) (hr : ss.reader = .dispatch op)
      (hfull : ¬ (s.queues (assign op.key)).length < shardQueueCapacity)
      (hd : (ss.cancelled || s.server.phase.unavailable) = true) :
      Step cfg assign fb s e
        (s.setSession c { ss with reader := .stopped, pending := ss.pending - 1 })

/-- A step of a session alone. -/
theorem Step.of_session {e : Event n m} {c : Nat} {ss' : Session}
    (hs : SessionStep cfg fb s.server.phase c e (s.sessions c) ss') :
    Step cfg assign fb s e (s.setSession c ss') :=
  .session c ss' s.server hs (Or.inl rfl)

theorem readerStep_cases {c : Nat} {ss : Session} (hc : s.sessions c = some ss)
    (hs : s.readerStep cfg assign fb c ss = some s') : Step cfg assign fb s (.reader c) s' := by
  have local' : ∀ {ss'}, ReaderStep cfg fb s.server.phase c ss ss' →
      Step cfg assign fb s (.reader c) (s.setSession c ss') := fun h =>
    .of_session (hc ▸ .reader ss _ rfl h)
  unfold System.readerStep at hs
  cases hr : ss.reader with
  | read =>
    simp only [hr] at hs
    split at hs
    · rename_i frame rest hf
      cases hs
      exact local' (.read frame rest hr hf)
    · rename_i size hf
      cases hs
      exact local' (.ended _ (.invalid size hr hf))
    · rename_i hf
      split_ifs at hs with hclosed heof hempty
      · cases hs
        exact local' (.ended _ (.closed hr hclosed))
      all_goals
        have hend : Ends fb s.server.phase c ss _ := .eof hr hf heof
        simp only [hempty, if_true, if_false, Bool.false_eq_true] at hend
        cases hs
        exact local' (.ended _ hend)
  | check frame =>
    simp only [hr] at hs
    split_ifs at hs with hp
    · cases hs
      exact local' (.ended _ (.unavailable frame hr hp))
    · cases hs
      exact local' (.checked frame hr (Bool.not_eq_true _ ▸ hp))
  | decode frame =>
    simp only [hr] at hs
    split at hs
    · rename_i reason hd
      cases hs
      exact local' (.ended _ (.malformed frame reason hr hd))
    · rename_i requestID hd
      cases hs
      exact local' (.getTTL frame requestID hr hd)
    · rename_i op hd
      cases hs
      exact local' (.lease frame op hr hd)
  | phase op =>
    simp only [hr] at hs
    split_ifs at hs with hp
    · cases hs
      exact local' (.refused op hr hp)
    · cases hs
      exact local' (.admitted op hr hp)
  | enqueue r =>
    simp only [hr] at hs
    split_ifs at hs with hroom hcancelled
    · cases hs
      exact local' (.enqueued r hr hroom)
    · cases hs
      exact local' (.gaveUp r hr hcancelled)
  | dispatch op =>
    simp only [hr] at hs
    split_ifs at hs with hroom hcancelled
    · cases hs
      exact .dispatched c ss op rfl hc hr hroom
    · cases hs
      exact .withdrawn c ss op rfl hc hr hroom hcancelled
  | stopped =>
    simp only [hr] at hs
    cases hs

theorem respondStep_cases {i : Fin n} {job : Job} {r : Response}
    (hw : s.server.workers i = .reply job r) (hs : s.respondStep i job r = some s') :
    Step cfg assign fb s (.respond i) s' := by
  unfold System.respondStep at hs
  split at hs
  · rename_i ss hc
    dsimp only at hs
    split_ifs at hs with hroom hcancelled
    · cases hs
      exact .responded i job r ss rfl hw hc hroom
    · cases hs
      exact .unanswered i job r ss rfl hw hc hcancelled
  · cases hs

theorem check_cases {i : Fin n} {op : Operation} (hw : s.server.workers i = .dequeued op)
    {server : State n m} (hs : Server.step cfg assign s.server (.check i) = some server) :
    server = s.server.setWorker i (if s.server.phase = .active then .admitted op else .idle) := by
  simp only [Server.step, hw] at hs
  cases hs
  rfl

/-- **What a step of the system does.** -/
theorem step_cases {e : Event n m} (hs : step cfg assign fb s e = some s') :
    Step cfg assign fb s e s' := by
  cases e with
  | server a =>
    simp only [step] at hs
    split_ifs at hs with ha
    split at hs
    · rename_i server hstep
      cases hs
      exact .threads a server rfl ha hstep
    · cases hs
  | dequeue i =>
    simp only [step] at hs
    split at hs
    · rename_i op rest hq
      split at hs
      · rename_i server hstep
        cases hs
        exact .dequeued i op rest server rfl hq hstep
      · cases hs
    · cases hs
  | check i =>
    simp only [step] at hs
    split at hs
    · rename_i op hw
      split at hs
      · rename_i server hstep
        obtain rfl := check_cases hw hstep
        cases hs
        split_ifs with hp
        · exact .checked i op rfl hw hp
        · exact .dropped i op rfl hw hp
      · cases hs
    · cases hs
  | respond i =>
    simp only [step] at hs
    split at hs
    · rename_i job r hw
      exact respondStep_cases hw hs
    · cases hs
  | accept c =>
    simp only [step] at hs
    split at hs
    · rename_i hc
      split_ifs at hs with hp
      cases hs
      exact .of_session (hc ▸ .accepted rfl (Bool.not_eq_true _ ▸ hp))
    · cases hs
  | receive c bytes =>
    simp only [step] at hs
    split at hs
    · rename_i ss hc
      cases hs
      exact .of_session (hc ▸ .received ss bytes rfl)
    · cases hs
  | hangup c =>
    simp only [step] at hs
    split at hs
    · rename_i ss hc
      cases hs
      exact .of_session (hc ▸ .hungUp ss rfl)
    · cases hs
  | reader c =>
    simp only [step] at hs
    split at hs
    · rename_i ss hc
      exact readerStep_cases hc hs
    · cases hs
  | writer c choice =>
    simp only [step] at hs
    split at hs
    · rename_i ss hc
      split at hs
      · rename_i ss' hw
        cases hs
        exact .of_session (hc ▸ .writer ss ss' choice rfl (writerStep_cases hw))
      · rename_i ss' hw
        cases hs
        exact .session c ss' _ (hc ▸ .writer ss ss' choice rfl (writerStep_cases hw)) (Or.inr rfl)
      · cases hs
    · cases hs
  | closeConn c =>
    simp only [step] at hs
    split at hs
    · rename_i ss hc
      cases hs
      exact .of_session (hc ▸ .closed ss rfl)
    · cases hs

/-! ## The flow of operations -/

/-- The operation that a step adds to the queue of shard `i`. -/
def dispatched (assign : Nat → Fin n) (s : System n m) (e : Event n m) (i : Fin n) :
    Option Operation :=
  match e with
  | .reader c =>
    match (s.sessions c).map Session.reader with
    | some (.dispatch op) =>
      if assign op.key = i ∧ (s.queues i).length < shardQueueCapacity then some op else none
    | _ => none
  | _ => none

/-- The operation that the worker of shard `i` is done with in a step. -/
def finished (s : System n m) (e : Event n m) (i : Fin n) : Option Operation :=
  match e with
  | .check j =>
    match s.server.workers i with
    | .dequeued op => if j = i ∧ s.server.phase ≠ .active then some op else none
    | _ => none
  | .respond j =>
    match s.server.workers i with
    | .reply job _ => if j = i then some job.op else none
    | _ => none
  | _ => none

/-- Inside `apply` a worker keeps its operation. -/
theorem operation_of_work {sh sh' : Shared n} {i : Fin n} {w w' : Worker} {pool : PoolGet}
    (h : w.step cfg sh i pool = some (sh', w')) : w'.operation = w.operation := by
  obtain ⟨job, job', hj, hj', hop, -⟩ := (Worker.step_turn h).job
  have hjob : ∀ {w : Worker} {job : Job}, w.job = some job → w.operation = some job.op := by
    intro w job hw
    cases w <;> cases hw <;> rfl
  rw [hjob hj, hjob hj', hop]

/-- The server's own steps leave the operations with their workers. -/
theorem operation_of_internal {t t' : State n m} {a : Act n m} (ha : a.internal = true)
    (hs : Server.step cfg assign t a = some t') (i : Fin n) :
    (t'.workers i).operation = (t.workers i).operation := by
  cases step_worker hs i with
  | still hw => rw [hw]
  | moved pool hwork h => exact operation_of_work h
  | dequeued op hw hw' hd => subst hd; cases ha
  | dropped op hw hw' hphase hc | admitted op hw hw' hactive hc => subst hc; cases ha
  | applied op now hw hn hw' => rw [hw, hw']; rfl
  | responded job r hw hw' hr => subst hr; cases ha

theorem dequeue_cases {t t' : State n m} {i : Fin n} {op : Operation}
    (hs : Server.step cfg assign t (.dequeue i op) = some t') :
    t.workers i = .idle ∧ assign op.key = i ∧ t' = t.setWorker i (.dequeued op) := by
  simp only [Server.step] at hs
  split at hs
  · rename_i hw
    split_ifs at hs with hi
    cases hs
    exact ⟨hw, hi, rfl⟩
  · cases hs

@[simp] theorem donePending_server (s : System n m) (c : Nat) :
    (s.donePending c).server = s.server := by
  unfold donePending
  split <;> rfl

@[simp] theorem donePending_queues (s : System n m) (c : Nat) :
    (s.donePending c).queues = s.queues := by
  unfold donePending
  split <;> rfl

/-- The worker of shard `j` moves from operation `op` to none. -/
theorem inShard_idle {j : Fin n} {op : Operation} (hw : (s.server.workers j).operation = some op)
    (hserver : s'.server = s.server.setWorker j .idle) (hq : s'.queues = s.queues) (i : Fin n) :
    s.inShard i = (if j = i then some op else none).toList ++ s'.inShard i := by
  unfold inShard
  rw [hserver, hq]
  by_cases hij : j = i
  · subst hij
    have hidle : (s.server.setWorker j .idle).workers j = .idle := Function.update_self ..
    rw [hidle, hw, if_pos rfl]
    rfl
  · have hsame : (s.server.setWorker j .idle).workers i = s.server.workers i :=
      Function.update_of_ne (Ne.symm hij) ..
    rw [hsame, if_neg hij]
    rfl

theorem finished_check {j : Fin n} {op : Operation} (hw : s.server.workers j = .dequeued op)
    (hp : s.server.phase ≠ .active) (i : Fin n) :
    s.finished (.check j) i = if j = i then some op else none := by
  by_cases hij : j = i
  · subst hij
    simp only [finished, hw, hp, ne_eq, not_false_eq_true, and_self, if_true]
  · unfold finished
    dsimp only
    split
    · rw [if_neg (fun h => hij h.1), if_neg hij]
    · rw [if_neg hij]

theorem finished_active {j : Fin n} (hp : s.server.phase = .active) (i : Fin n) :
    s.finished (.check j) i = none := by
  unfold finished
  dsimp only
  split
  · rw [if_neg (fun h => h.2 hp)]
  · rfl

theorem finished_respond {j : Fin n} {job : Job} {r : Response}
    (hw : s.server.workers j = .reply job r) (i : Fin n) :
    s.finished (.respond j) i = if j = i then some job.op else none := by
  by_cases hij : j = i
  · subst hij
    simp only [finished, hw, if_true]
  · unfold finished
    dsimp only
    split
    · rw [if_neg hij, if_neg hij]
    · rw [if_neg hij]

theorem dispatched_room {c : Nat} {ss : Session} {op : Operation} (hc : s.sessions c = some ss)
    (hr : ss.reader = .dispatch op)
    (hroom : (s.queues (assign op.key)).length < shardQueueCapacity) (i : Fin n) :
    s.dispatched assign (.reader c) i = if assign op.key = i then some op else none := by
  simp only [dispatched, hc, Option.map_some, hr]
  refine if_congr ⟨And.left, fun hi => ⟨hi, hi ▸ hroom⟩⟩ rfl rfl

theorem dispatched_full {c : Nat} {ss : Session} {op : Operation} (hc : s.sessions c = some ss)
    (hr : ss.reader = .dispatch op)
    (hfull : ¬ (s.queues (assign op.key)).length < shardQueueCapacity) (i : Fin n) :
    s.dispatched assign (.reader c) i = none := by
  simp only [dispatched, hc, Option.map_some, hr]
  refine if_neg ?_
  rintro ⟨rfl, hlt⟩
  exact hfull hlt

/-- Outside `dispatch` a session moves no operation. -/
theorem SessionStep.moves_none {c : Nat} {e : Event n m} {ss' : Session}
    (h : SessionStep cfg fb s.server.phase c e (s.sessions c) ss') (i : Fin n) :
    s.dispatched assign e i = none ∧ s.finished e i = none := by
  generalize hc : s.sessions c = o at h
  cases h with
  | reader ss ss' he hr =>
    subst he
    refine ⟨?_, rfl⟩
    simp only [dispatched, hc, Option.map_some]
    split
    · rename_i op hop
      exact absurd (Option.some.inj hop) (hr.reader_ne_dispatch op)
    · rfl
  | accepted he | received ss bytes he | hungUp ss he | closed ss he | writer ss ss' choice he =>
    subst he; exact ⟨rfl, rfl⟩

/-- **The flow of operations** through a shard: in at the end, out at the front. -/
theorem flow {e : Event n m} (hs : step cfg assign fb s e = some s') (i : Fin n) :
    s.inShard i ++ (s.dispatched assign e i).toList = (s.finished e i).toList ++ s'.inShard i := by
  cases step_cases hs with
  | threads a server he ha hstep =>
    subst he
    have hop := operation_of_internal ha hstep i
    simp only [dispatched, finished, inShard, setServer, hop, Option.toList_none, List.append_nil,
      List.nil_append]
  | dequeued j op rest server he hq hstep =>
    subst he
    obtain ⟨hw, -, rfl⟩ := dequeue_cases hstep
    simp only [dispatched, finished, inShard, setServer, Option.toList_none, List.append_nil,
      List.nil_append]
    by_cases hij : i = j
    · subst hij
      have hw' : (s.server.setWorker i (.dequeued op)).workers i = .dequeued op :=
        Function.update_self ..
      rw [hw, hw', hq, Function.update_self]
      rfl
    · have hw' : (s.server.setWorker j (.dequeued op)).workers i = s.server.workers i :=
        Function.update_of_ne hij ..
      rw [hw', Function.update_of_ne hij]
  | checked j op he hw hp =>
    subst he
    have hsame : ((s.server.setWorker j (.admitted op)).workers i).operation =
        (s.server.workers i).operation := by
      by_cases hij : i = j
      · subst hij
        have hw' : (s.server.setWorker i (.admitted op)).workers i = .admitted op :=
          Function.update_self ..
        rw [hw, hw']
        rfl
      · exact congrArg _ (Function.update_of_ne hij ..)
    simp only [dispatched, finished_active hp, inShard, setServer, hsame, Option.toList_none,
      List.append_nil, List.nil_append]
  | dropped j op he hw hp =>
    subst he
    rw [finished_check hw hp, dispatched, Option.toList_none, List.append_nil]
    · exact inShard_idle (by rw [hw]; rfl) (by rw [donePending_server]; rfl)
        (by rw [donePending_queues]; rfl) i
    · nofun
  | responded j job r ss he hw hc hroom | unanswered j job r ss he hw hc hd =>
    subst he
    rw [finished_respond hw, dispatched, Option.toList_none, List.append_nil]
    · exact inShard_idle (by rw [hw]; rfl) (by rfl) (by rfl) i
    · nofun
  | session c ss' server hstep hserver =>
    obtain ⟨hd, hf⟩ := hstep.moves_none i
    have hworkers : server.workers = s.server.workers := by
      rcases hserver with rfl | rfl <;> rfl
    rw [hd, hf, Option.toList_none, List.append_nil, List.nil_append]
    simp only [inShard, setSession, setServer, hworkers]
  | dispatched c ss op he hc hr hroom =>
    subst he
    rw [dispatched_room hc hr hroom, show s.finished (.reader c) i = none from rfl]
    by_cases hi : assign op.key = i
    · subst hi
      rw [if_pos rfl]
      simp only [inShard, setSession, Function.update_self, Option.toList_some, Option.toList_none,
        List.nil_append, List.append_assoc]
    · rw [if_neg hi]
      simp only [inShard, setSession, Function.update_of_ne (Ne.symm hi), Option.toList_none,
        List.nil_append, List.append_nil]
  | withdrawn c ss op he hc hr hfull hd =>
    subst he
    rw [dispatched_full hc hr hfull, show s.finished (.reader c) i = none from rfl]
    simp only [inShard, setSession, Option.toList_none, List.nil_append, List.append_nil]

end System

end RedLease.Server
