import RedLease.Server.Pending

/-!
# The life of a server

The phases of a server and the goroutines that move it through them (`server/server.go`, and the
listener of `connection.go`): `runQuarantine`, any number of calls of `fail` and of `Close`, each
behind its `sync.Once`, `runListener`, the beginning and the end of `runConnection`, and the end of
the workers. They run around the system of `Connection.lean`, which does the work: `Life.step` takes
a step of that system, or of one of these goroutines.

A step is one atomic access or one section under `connectionMu`, in which the holder may make several
steps. A `WaitGroup` is the list of what it counts. A step of the system in which a goroutine calls
`fail` leaves the phase to that call, which is one of the `fails`; the goroutine does not wait for it
here, and the phase is read where the source reads the context that is cancelled after it, so there
are more runs here than the server has.

`phases`, `sent`, `dequeuedIn`, `observed`, `accepted` and `finished` are history: what the phase has
been, how many errors were sent, what a worker saw, and what went through each shard.
-/

namespace RedLease.Server

open Lib LeaseShard

/-- `sync.Once`. -/
inductive Once where
  | fresh
  | running
  | done
  deriving DecidableEq, Repr

/-- Where `runQuarantine` stands. -/
inductive Quarantine where
  | waiting
  /-- The timer has fired, and the compare-and-swap is next. -/
  | fired
  /-- It has returned, and the timer has fired or not. -/
  | ended (fired : Bool)
  deriving DecidableEq, Repr

/-- Where a call of `fail` stands. -/
inductive FailCall where
  | idle
  /-- At `failOnce.Do`. -/
  | entering
  | load
  | swap (phase : Phase)
  | cancel
  | lock
  /-- In `closeConnections`, with the connections left. -/
  | closing (todo : List Nat)
  | send
  | returned
  deriving DecidableEq, Repr

/-- Where a call of `Close` stands. -/
inductive CloseCall where
  | idle
  /-- At `closeOnce.Do`. -/
  | entering
  | store
  | cancel
  | lock
  /-- In `closeConnections`, with the connections left. -/
  | closing (todo : List Nat)
  /-- `connectionWG.Wait()`. -/
  | waitConnections
  /-- The loop that closes the channels `stop`. -/
  | stop (next : Nat)
  /-- `wg.Wait()`. -/
  | waitAll
  | returned
  deriving DecidableEq, Repr

/-- Where `runListener` stands. -/
inductive Listener where
  | accepting
  /-- A connection was accepted, and `connectionMu` is next. -/
  | accepted (c : Nat)
  /-- The phase was checked under `connectionMu`, which is held. -/
  | registering (c : Nat)
  | ended
  deriving DecidableEq, Repr

/-- Who holds `connectionMu`. -/
inductive Holder where
  | listener
  | fail (id : Nat)
  | close (id : Nat)
  deriving DecidableEq, Repr

/-- A server with the calls of `fail` and `Close`, and what a run has shown of it. -/
structure Life (n m : Nat) where
  /-- The goroutines of the server and its sessions, with the phase. -/
  sys : System n m
  /-- `ctx` is cancelled. -/
  cancelled : Bool
  quarantine : Quarantine
  failOnce : Once
  fails : Nat → FailCall
  closeOnce : Once
  closes : Nat → CloseCall
  connectionMu : Option Holder
  listener : Listener
  nextConn : Nat
  /-- The connections that `connectionWG` counts. -/
  connectionWG : List Nat
  /-- The channel `stop` of a shard is closed. -/
  stop : Fin n → Bool
  /-- The worker of a shard has returned. -/
  exited : Fin n → Bool
  /-- The number of errors in the channel `fatal`. -/
  fatal : Nat
  operationTotals : OperationKind → Nat
  /-- What the phase has been, the present one last. -/
  phases : List Phase
  /-- How many errors were sent to `fatal`. -/
  sent : Nat
  /-- The phase in which the worker took its last operation from the queue. -/
  dequeuedIn : Fin n → Phase
  /-- The phase that the worker saw for its last operation. -/
  observed : Fin n → Option Phase
  /-- What was dispatched to a shard. -/
  accepted : Fin n → List Operation
  /-- What its worker is done with: `pending.Done()` was called for it. -/
  finished : Fin n → List Operation

/-- A step of the work, or of `NewServer`, `Close`, `fail` and the goroutines that they start. -/
inductive LifeAct (n m : Nat) where
  /-- A step of the goroutines that do the work. -/
  | sys (e : System.Event n m)
  /-- The timer of `runQuarantine` fires. -/
  | timer
  /-- The compare-and-swap of `runQuarantine`. -/
  | activate
  /-- `runQuarantine` sees that the context has ended. -/
  | contextEnds
  | callFail (id : Nat)
  | fail (id : Nat)
  /-- The owner takes the error from `Fatal()`. -/
  | takeFatal
  | callClose (id : Nat)
  | close (id : Nat)
  | accept
  /-- The listener locks `connectionMu` and checks the phase. -/
  | check
  | register
  /-- `Accept` returns a permanent error. -/
  | acceptError
  /-- The check at the start of `runConnection`. -/
  | run (c : Nat)
  /-- `runConnection` returns. -/
  | finish (c : Nat)
  /-- The worker finds its queue empty after `stop` and returns. -/
  | exit (i : Fin n)

/-- `fatal`'s capacity. -/
def fatalCapacity : Nat := 1

section Model

variable {n m : Nat}

/-- The events that are not decided by the life of the server. -/
def System.Event.working : System.Event n m → Bool
  | .server .activate | .server .close | .accept _ | .closeConn _ => false
  | _ => true

/-- The phase is stored. -/
def System.withPhase (s : System n m) (phase : Phase) : System n m :=
  { s with server := { s.server with phase } }

/-- The cleaner has nothing to do. -/
def Cleaner.resting : Cleaner → Bool
  | .idle => true
  | _ => false

/-- The worker has no operation. -/
def Worker.resting : Worker → Bool
  | .idle => true
  | _ => false

/-- `runConnection` has started `discardResponses`. -/
def Session.over (ss : Session) : Bool :=
  match ss.writer with
  | .discard | .done => true
  | _ => false

namespace Life

variable (s : Life n m)

/-- A server that `New` has started at `clock`. -/
def init (n m : Nat) (clock : Time) : Life n m where
  sys := .init n m clock
  cancelled := false
  quarantine := .waiting
  failOnce := .fresh
  fails _ := .idle
  closeOnce := .fresh
  closes _ := .idle
  connectionMu := none
  listener := .accepting
  nextConn := 0
  connectionWG := []
  stop _ := false
  exited _ := false
  fatal := 0
  operationTotals _ := 0
  phases := [.quarantine]
  sent := 0
  dequeuedIn _ := .quarantine
  observed _ := none
  accepted _ := []
  finished _ := []

/-- The phase of the server. -/
def phase : Phase := s.sys.server.phase

/-- The phase is stored, and noted. -/
def setPhase (phase : Phase) : Life n m :=
  { s with sys := s.sys.withPhase phase, phases := s.phases ++ [phase] }

/-- A call of `fail` goes on to `call`. -/
def setFail (id : Nat) (call : FailCall) : Life n m :=
  { s with fails := Function.update s.fails id call }

/-- A call of `Close` goes on to `call`. -/
def setClose (id : Nat) (call : CloseCall) : Life n m :=
  { s with closes := Function.update s.closes id call }

/-- `conn.Close()` in `closeConnections`. -/
def closeConn (c : Nat) : Life n m :=
  match s.sys.sessions c with
  | some ss => { s with sys := s.sys.setSession c { ss with connClosed := true } }
  | none => s

/-- The next step of a call of `fail`. -/
def failStep (id : Nat) : Option (Life n m) :=
  match s.fails id with
  | .idle | .returned => none
  | .entering =>
    match s.failOnce with
    | .fresh => some ({ s with failOnce := .running }.setFail id .load)
    | .running => none
    | .done => some (s.setFail id .returned)
  | .load =>
    if s.phase = .closed then some ({ s with failOnce := .done }.setFail id .returned)
    else some (s.setFail id (.swap s.phase))
  | .swap phase =>
    if s.phase = phase then some ((s.setPhase .failed).setFail id .cancel)
    else some (s.setFail id .load)
  | .cancel => some ({ s with cancelled := true }.setFail id .lock)
  | .lock =>
    match s.connectionMu with
    | none => some ({ s with connectionMu := some (.fail id) }.setFail id (.closing s.connectionWG))
    | some _ => none
  | .closing (c :: todo) => some ((s.closeConn c).setFail id (.closing todo))
  | .closing [] => some ({ s with connectionMu := none }.setFail id .send)
  | .send =>
    if s.fatal < fatalCapacity then
      some ({ s with
        fatal := s.fatal + 1
        sent := s.sent + 1
        failOnce := .done }.setFail id .returned)
    else none

/-- The next step of a call of `Close`. -/
def closeStep (id : Nat) : Option (Life n m) :=
  match s.closes id with
  | .idle | .returned => none
  | .entering =>
    match s.closeOnce with
    | .fresh => some ({ s with closeOnce := .running }.setClose id .store)
    | .running => none
    | .done => some (s.setClose id .returned)
  | .store => some ((s.setPhase .closed).setClose id .cancel)
  | .cancel => some ({ s with cancelled := true }.setClose id .lock)
  | .lock =>
    match s.connectionMu with
    | none =>
      some ({ s with connectionMu := some (.close id) }.setClose id (.closing s.connectionWG))
    | some _ => none
  | .closing (c :: todo) => some ((s.closeConn c).setClose id (.closing todo))
  | .closing [] => some ({ s with connectionMu := none }.setClose id .waitConnections)
  | .waitConnections => if s.connectionWG = [] then some (s.setClose id (.stop 0)) else none
  | .stop next =>
    if h : next < n then
      some ({ s with stop := Function.update s.stop ⟨next, h⟩ true }.setClose id (.stop (next + 1)))
    else some (s.setClose id .waitAll)
  | .waitAll =>
    if (∀ i, s.exited i = true) ∧ s.listener = .ended ∧
        (s.quarantine = .ended true ∨ s.quarantine = .ended false) ∧
        ∀ j, (s.sys.server.cleaners j).resting = true then
      some ({ s with closeOnce := .done }.setClose id .returned)
    else none

/-- The listener has `connectionMu` and checks the phase. -/
def checkStep : Option (Life n m) :=
  match s.listener, s.connectionMu with
  | .accepted c, none =>
    if s.phase.unavailable then some { s with listener := .ended }
    else some { s with connectionMu := some .listener, listener := .registering c }
  | _, _ => none

/-- The check at the start of `runConnection`, and the session. -/
def runStep (cfg : Config) (assign : Nat → Fin n) (fb : Accessors) (c : Nat) : Option (Life n m) :=
  if c ∈ s.connectionWG ∧ s.sys.sessions c = none then
    if s.phase.unavailable then some { s with connectionWG := s.connectionWG.erase c }
    else (s.sys.step cfg assign fb (.accept c)).map fun sys => { s with sys }
  else none

/-- The end of `runConnection`. -/
def finishStep (c : Nat) : Option (Life n m) :=
  match s.sys.sessions c with
  | some ss =>
    if c ∈ s.connectionWG ∧ ss.over then some { s with connectionWG := s.connectionWG.erase c }
    else none
  | none => none

/-- The counter of `apply`. -/
def countOperation : System.Event n m → OperationKind → Nat
  | .server (.apply i _) =>
    match s.sys.server.workers i with
    | .admitted op => Function.update s.operationTotals op.kind (s.operationTotals op.kind + 1)
    | _ => s.operationTotals
  | _ => s.operationTotals

/-- What the workers have seen after an event. -/
def observe : System.Event n m → Fin n → Option Phase
  | .dequeue i => Function.update s.observed i none
  | .check i => Function.update s.observed i (some s.phase)
  | _ => s.observed

/-- The phase in which each worker took its operation. -/
def noteDequeue : System.Event n m → Fin n → Phase
  | .dequeue i => Function.update s.dequeuedIn i s.phase
  | _ => s.dequeuedIn

/-- The work goes on with `sys`, in the phase that the server has. -/
def worked (assign : Nat → Fin n) (e : System.Event n m) (sys : System n m) : Life n m :=
  { s with
    sys := sys.withPhase s.phase
    operationTotals := s.countOperation e
    observed := s.observe e
    dequeuedIn := s.noteDequeue e
    accepted := fun i => s.accepted i ++ (s.sys.dispatched assign e i).toList
    finished := fun i => s.finished i ++ (s.sys.finished e i).toList }

/-- A worker that has returned takes no operation. -/
def mayWork : System.Event n m → Bool
  | .dequeue i => !s.exited i
  | e => e.working

/-- One step of a server. -/
def step (cfg : Config) (assign : Nat → Fin n) (fb : Accessors) (s : Life n m) :
    LifeAct n m → Option (Life n m)
  | .sys e =>
    if s.mayWork e then (s.sys.step cfg assign fb e).map (s.worked assign e) else none
  | .timer =>
    match s.quarantine with
    | .waiting => some { s with quarantine := .fired }
    | _ => none
  | .activate =>
    match s.quarantine with
    | .fired =>
      if s.phase = .quarantine then some { s.setPhase .active with quarantine := .ended true }
      else some { s with quarantine := .ended true }
    | _ => none
  | .contextEnds =>
    match s.quarantine with
    | .waiting => if s.cancelled then some { s with quarantine := .ended false } else none
    | _ => none
  | .callFail id =>
    match s.fails id with
    | .idle | .returned => some (s.setFail id .entering)
    | _ => none
  | .fail id => s.failStep id
  | .takeFatal => if 0 < s.fatal then some { s with fatal := s.fatal - 1 } else none
  | .callClose id =>
    match s.closes id with
    | .idle | .returned => some (s.setClose id .entering)
    | _ => none
  | .close id => s.closeStep id
  | .accept =>
    match s.listener with
    | .accepting => some { s with listener := .accepted s.nextConn, nextConn := s.nextConn + 1 }
    | _ => none
  | .check => s.checkStep
  | .register =>
    match s.listener with
    | .registering c =>
      some { s with
        connectionWG := c :: s.connectionWG
        connectionMu := none
        listener := .accepting }
    | _ => none
  | .acceptError =>
    match s.listener with
    | .accepting => some { s with listener := .ended }
    | _ => none
  | .run c => s.runStep cfg assign fb c
  | .finish c => s.finishStep c
  | .exit i =>
    if s.stop i = true ∧ (s.sys.server.workers i).resting = true ∧ s.sys.queues i = [] then
      some { s with exited := Function.update s.exited i true }
    else none

end Life

end Model

/-! ## What a step can do -/

namespace Life

variable {n m : Nat} {cfg : Config} {assign : Nat → Fin n} {fb : Accessors} {s s' : Life n m}

/-- All that a call of `fail` can do. -/
inductive FailStep (s : Life n m) (id : Nat) : Life n m → Prop
  | entered (hc : s.fails id = .entering) (ho : s.failOnce = .fresh) :
      FailStep s id ({ s with failOnce := .running }.setFail id .load)
  | late (hc : s.fails id = .entering) (ho : s.failOnce = .done) :
      FailStep s id (s.setFail id .returned)
  | closed (hc : s.fails id = .load) (hp : s.phase = .closed) :
      FailStep s id ({ s with failOnce := .done }.setFail id .returned)
  | loaded (hc : s.fails id = .load) (hp : s.phase ≠ .closed) :
      FailStep s id (s.setFail id (.swap s.phase))
  | swapped (hc : s.fails id = .swap s.phase) :
      FailStep s id ((s.setPhase .failed).setFail id .cancel)
  | retried (phase : Phase) (hc : s.fails id = .swap phase) : FailStep s id (s.setFail id .load)
  | cancelled (hc : s.fails id = .cancel) :
      FailStep s id ({ s with cancelled := true }.setFail id .lock)
  | locked (hc : s.fails id = .lock) (hmu : s.connectionMu = none) :
      FailStep s id ({ s with connectionMu := some (.fail id) }.setFail id (.closing s.connectionWG))
  | closedConn (c : Nat) (todo : List Nat) (hc : s.fails id = .closing (c :: todo)) :
      FailStep s id ((s.closeConn c).setFail id (.closing todo))
  | unlocked (hc : s.fails id = .closing []) :
      FailStep s id ({ s with connectionMu := none }.setFail id .send)
  | sent (hc : s.fails id = .send) (hroom : s.fatal < fatalCapacity) :
      FailStep s id ({ s with
        fatal := s.fatal + 1
        sent := s.sent + 1
        failOnce := .done }.setFail id .returned)

theorem failStep_cases {id : Nat} (hs : s.failStep id = some s') : FailStep s id s' := by
  unfold failStep at hs
  split at hs
  case h_1 => cases hs
  case h_2 => cases hs
  case h_3 hc =>
    split at hs
    · rename_i ho
      cases hs
      exact .entered hc ho
    · cases hs
    · rename_i ho
      cases hs
      exact .late hc ho
  case h_4 hc =>
    split_ifs at hs with hp
    · cases hs
      exact .closed hc hp
    · cases hs
      exact .loaded hc hp
  case h_5 phase hc =>
    split_ifs at hs with hp
    · cases hs
      exact .swapped (hp ▸ hc)
    · cases hs
      exact .retried phase hc
  case h_6 hc =>
    cases hs
    exact .cancelled hc
  case h_7 hc =>
    split at hs
    · rename_i hmu
      cases hs
      exact .locked hc hmu
    · cases hs
  case h_8 c todo hc =>
    cases hs
    exact .closedConn c todo hc
  case h_9 hc =>
    cases hs
    exact .unlocked hc
  case h_10 hc =>
    split_ifs at hs with hroom
    cases hs
    exact .sent hc hroom

/-- All that a call of `Close` can do. -/
inductive CloseStep (s : Life n m) (id : Nat) : Life n m → Prop
  | entered (hc : s.closes id = .entering) (ho : s.closeOnce = .fresh) :
      CloseStep s id ({ s with closeOnce := .running }.setClose id .store)
  | late (hc : s.closes id = .entering) (ho : s.closeOnce = .done) :
      CloseStep s id (s.setClose id .returned)
  | stored (hc : s.closes id = .store) :
      CloseStep s id ((s.setPhase .closed).setClose id .cancel)
  | cancelled (hc : s.closes id = .cancel) :
      CloseStep s id ({ s with cancelled := true }.setClose id .lock)
  | locked (hc : s.closes id = .lock) (hmu : s.connectionMu = none) :
      CloseStep s id
        ({ s with connectionMu := some (.close id) }.setClose id (.closing s.connectionWG))
  | closedConn (c : Nat) (todo : List Nat) (hc : s.closes id = .closing (c :: todo)) :
      CloseStep s id ((s.closeConn c).setClose id (.closing todo))
  | unlocked (hc : s.closes id = .closing []) :
      CloseStep s id ({ s with connectionMu := none }.setClose id .waitConnections)
  | joined (hc : s.closes id = .waitConnections) (hwg : s.connectionWG = []) :
      CloseStep s id (s.setClose id (.stop 0))
  | stopped (i : Fin n) (hc : s.closes id = .stop i) :
      CloseStep s id
        ({ s with stop := Function.update s.stop i true }.setClose id (.stop (i + 1)))
  | allStopped (next : Nat) (hc : s.closes id = .stop next) : CloseStep s id (s.setClose id .waitAll)
  | returned (hc : s.closes id = .waitAll) (hexited : ∀ i, s.exited i = true) :
      CloseStep s id ({ s with closeOnce := .done }.setClose id .returned)

theorem closeStep_cases {id : Nat} (hs : s.closeStep id = some s') : CloseStep s id s' := by
  unfold closeStep at hs
  split at hs
  case h_1 => cases hs
  case h_2 => cases hs
  case h_3 hc =>
    split at hs
    · rename_i ho
      cases hs
      exact .entered hc ho
    · cases hs
    · rename_i ho
      cases hs
      exact .late hc ho
  case h_4 hc =>
    cases hs
    exact .stored hc
  case h_5 hc =>
    cases hs
    exact .cancelled hc
  case h_6 hc =>
    split at hs
    · rename_i hmu
      cases hs
      exact .locked hc hmu
    · cases hs
  case h_7 c todo hc =>
    cases hs
    exact .closedConn c todo hc
  case h_8 hc =>
    cases hs
    exact .unlocked hc
  case h_9 hc =>
    split_ifs at hs with hwg
    cases hs
    exact .joined hc hwg
  case h_10 next hc =>
    split_ifs at hs with hlt
    · cases hs
      exact .stopped ⟨next, hlt⟩ hc
    · cases hs
      exact .allStopped next hc
  case h_11 hc =>
    split_ifs at hs with hall
    cases hs
    exact .returned hc hall.1

/-- All that a step can do. -/
inductive Step (cfg : Config) (assign : Nat → Fin n) (fb : Accessors) (s : Life n m) :
    LifeAct n m → Life n m → Prop
  | worked (e : System.Event n m) (sys : System n m) (hm : s.mayWork e = true)
      (hs : s.sys.step cfg assign fb e = some sys) :
      Step cfg assign fb s (.sys e) (s.worked assign e sys)
  | timer (hq : s.quarantine = .waiting) :
      Step cfg assign fb s .timer { s with quarantine := .fired }
  | activated (hq : s.quarantine = .fired) (hp : s.phase = .quarantine) :
      Step cfg assign fb s .activate { s.setPhase .active with quarantine := .ended true }
  | overtaken (hq : s.quarantine = .fired) (hp : s.phase ≠ .quarantine) :
      Step cfg assign fb s .activate { s with quarantine := .ended true }
  | contextEnds (hq : s.quarantine = .waiting) :
      Step cfg assign fb s .contextEnds { s with quarantine := .ended false }
  | callFail (id : Nat) (hc : s.fails id = .idle ∨ s.fails id = .returned) :
      Step cfg assign fb s (.callFail id) (s.setFail id .entering)
  | fail {s' : Life n m} (id : Nat) (h : FailStep s id s') : Step cfg assign fb s (.fail id) s'
  | takeFatal (h : 0 < s.fatal) : Step cfg assign fb s .takeFatal { s with fatal := s.fatal - 1 }
  | callClose (id : Nat) (hc : s.closes id = .idle ∨ s.closes id = .returned) :
      Step cfg assign fb s (.callClose id) (s.setClose id .entering)
  | close {s' : Life n m} (id : Nat) (h : CloseStep s id s') : Step cfg assign fb s (.close id) s'
  | accepted (hl : s.listener = .accepting) :
      Step cfg assign fb s .accept
        { s with listener := .accepted s.nextConn, nextConn := s.nextConn + 1 }
  | turnedAway (c : Nat) (hl : s.listener = .accepted c) (hp : s.phase.unavailable = true) :
      Step cfg assign fb s .check { s with listener := .ended }
  | checked (c : Nat) (hl : s.listener = .accepted c) (hmu : s.connectionMu = none)
      (hp : s.phase.unavailable = false) : Step cfg assign fb s .check
        { s with connectionMu := some .listener, listener := .registering c }
  | registered (c : Nat) (hl : s.listener = .registering c) :
      Step cfg assign fb s .register { s with
        connectionWG := c :: s.connectionWG
        connectionMu := none
        listener := .accepting }
  | acceptError (hl : s.listener = .accepting) :
      Step cfg assign fb s .acceptError { s with listener := .ended }
  | refused (c : Nat) (hc : c ∈ s.connectionWG) (hss : s.sys.sessions c = none) :
      Step cfg assign fb s (.run c) { s with connectionWG := s.connectionWG.erase c }
  | ran (c : Nat) (hc : c ∈ s.connectionWG) (hss : s.sys.sessions c = none)
      (hp : s.phase.unavailable = false) :
      Step cfg assign fb s (.run c) { s with sys := s.sys.setSession c .start }
  | ended (c : Nat) (ss : Session) (hss : s.sys.sessions c = some ss) (hover : ss.over = true) :
      Step cfg assign fb s (.finish c) { s with connectionWG := s.connectionWG.erase c }
  | exited (i : Fin n) (hstop : s.stop i = true) (hw : s.sys.server.workers i = .idle)
      (hq : s.sys.queues i = []) :
      Step cfg assign fb s (.exit i) { s with exited := Function.update s.exited i true }

/-- **What a step does.** -/
theorem step_cases {a : LifeAct n m} (hs : step cfg assign fb s a = some s') :
    Step cfg assign fb s a s' := by
  cases a with
  | sys e =>
    simp only [step] at hs
    split_ifs at hs with hm
    obtain ⟨sys, hsys, rfl⟩ := Option.map_eq_some_iff.mp hs
    exact .worked e sys hm hsys
  | timer =>
    simp only [step] at hs
    split at hs
    · cases hs
      exact .timer ‹_›
    · cases hs
  | activate =>
    simp only [step] at hs
    split at hs
    · split_ifs at hs with hp
      · cases hs
        exact .activated ‹_› hp
      · cases hs
        exact .overtaken ‹_› hp
    · cases hs
  | contextEnds =>
    simp only [step] at hs
    split at hs
    · split_ifs at hs
      cases hs
      exact .contextEnds ‹_›
    · cases hs
  | callFail id =>
    simp only [step] at hs
    split at hs
    · cases hs
      exact .callFail id (Or.inl ‹_›)
    · cases hs
      exact .callFail id (Or.inr ‹_›)
    · cases hs
  | fail id => exact .fail id (failStep_cases hs)
  | takeFatal =>
    simp only [step] at hs
    split_ifs at hs with h
    cases hs
    exact .takeFatal h
  | callClose id =>
    simp only [step] at hs
    split at hs
    · cases hs
      exact .callClose id (Or.inl ‹_›)
    · cases hs
      exact .callClose id (Or.inr ‹_›)
    · cases hs
  | close id => exact .close id (closeStep_cases hs)
  | accept =>
    simp only [step] at hs
    split at hs
    · cases hs
      exact .accepted ‹_›
    · cases hs
  | check =>
    simp only [step, checkStep] at hs
    split at hs
    · rename_i c hl hmu
      split_ifs at hs with hp
      · cases hs
        exact .turnedAway c hl hp
      · cases hs
        exact .checked c hl hmu (Bool.not_eq_true _ ▸ hp)
    · cases hs
  | register =>
    simp only [step] at hs
    split at hs
    · rename_i c hl
      cases hs
      exact .registered c hl
    · cases hs
  | acceptError =>
    simp only [step] at hs
    split at hs
    · cases hs
      exact .acceptError ‹_›
    · cases hs
  | run c =>
    simp only [step, runStep] at hs
    split_ifs at hs with hc hp
    · cases hs
      exact .refused c hc.1 hc.2
    · have hp' : s.sys.server.phase.unavailable = false := Bool.not_eq_true _ ▸ hp
      simp only [System.step, hc.2, hp', Bool.false_eq_true, if_false, Option.map_some] at hs
      cases hs
      exact .ran c hc.1 hc.2 hp'
  | finish c =>
    simp only [step, finishStep] at hs
    split at hs
    · rename_i ss hss
      split_ifs at hs with hc
      cases hs
      exact .ended c ss hss hc.2
    · cases hs
  | exit i =>
    simp only [step] at hs
    split_ifs at hs with h
    cases hs
    refine .exited i h.1 ?_ h.2.2
    have hw := h.2.1
    unfold Worker.resting at hw
    split at hw
    · assumption
    · cases hw

end Life

end RedLease.Server
