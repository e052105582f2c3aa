import Mathlib.Data.List.Basic
import Mathlib.Data.List.Nodup
import Mathlib.Logic.Function.Basic
import RedLease.Lib.Trans

/-!
# The request queue across sessions

Each replica of package `client`, and `client1of1.Client`, keeps one request queue through all its
connections: `manage`, `publish`, `clear`, `Close` and `discardQueuedRequests` of
`client/replica_conn.go`, `newConnectionGeneration`, `sendRequests` and `terminate` of
`client/connection_generation.go`, and their counterparts in `client1of1/client.go` and
`client1of1/connection.go`.

A session is a connection with a reader, a writer and the channel that stops them (`done`, or `stop`
in `client1of1`). The two packages share the writer and differ in how a session begins and ends:
`client` starts the goroutines before it publishes the connection and lets whoever sees an error
close `done`; `client1of1` publishes first, and only its manager closes `stop`.

The queue is the list of the accepted requests and the number of those taken out, so a request is
known by its position. It is first-in-first-out for a single consumer, and `TryDequeue` may find
nothing while a producer is still publishing: both are results about the ring.

* **`single_consumer`**: at any time at most one goroutine takes requests out of the queue.
* `Inv.handed`: what has been handed to `BufferFrame`, over all sessions, is a subsequence of what
  was accepted, position by position.
* `Inv.fate`: a request that was taken out and not handed over was in the hands of a session that
  stopped, one for each session at most, or was discarded by `Close`.
* **`transmission_in_order`** collects them.
-/

namespace RedLease.Sessions

/-- Which of the two packages manages the connection. -/
inductive Package where
  | client
  | client1of1
  deriving DecidableEq, Repr

/-- Where `sendRequests` stands. -/
inductive Writer where
  | idle
  /-- The check of `done` before a batch. -/
  | check
  | dequeue
  /-- The `select` on `done` and `Ready()`. -/
  | wait
  /-- A request in hand, before the check of `done`. `stopping` is whether the session was already
  stopping when the request was taken out. -/
  | holding (position : Nat) (stopping : Bool)
  | buffer (position : Nat)
  /-- The `TryDequeue` after a frame. -/
  | next
  | flush
  /-- Returning, before `workers.Done`. -/
  | leaving
  | exited
  deriving DecidableEq, Repr

/-- Where `receiveResponses` stands. -/
inductive Reader where
  | idle
  | reading
  | leaving
  | exited
  deriving DecidableEq, Repr

/-- A connection, with its writer and its reader. -/
structure Session where
  /-- `done` is closed. -/
  done : Bool
  writer : Writer
  reader : Reader

/-- `workers.Wait()` returns. -/
def Session.Joined (x : Session) : Prop := x.writer = .exited ∧ x.reader = .exited

instance (x : Session) : Decidable x.Joined := inferInstanceAs (Decidable (_ ∧ _))

/-- Where `manage` stands. -/
inductive Manager where
  | dial
  | publishing (g : Nat)
  | starting (g : Nat)
  | running (g : Nat)
  | clearing (g : Nat)
  | terminating (g : Nat)
  /-- `workers.Wait()`; `last` if the manager returns afterwards. -/
  | joining (g : Nat) (last : Bool)
  /-- The check of the context after a session. -/
  | retry
  | backoff
  | exited
  deriving DecidableEq, Repr

/-- Where `Close` stands. -/
inductive Closer where
  | idle
  | mark
  | terminating (g : Nat)
  | joining (g : Nat)
  /-- `manager.Wait()`. -/
  | waiting
  | discarding
  | closed
  deriving DecidableEq, Repr

/-- A frame handed to `BufferFrame`. -/
structure Handed (T : Type) where
  session : Nat
  position : Nat
  request : T

/-- A request that a writer had in hand when it returned. -/
structure Dropped where
  session : Nat
  position : Nat
  /-- The session was stopping when it took the request out of the queue. -/
  stoppingAtDequeue : Bool
  /-- The session was stopping when it dropped the request. -/
  stoppingAtDrop : Bool
  deriving DecidableEq

/-- The request queue of a replica, the connections so far, the manager and `Close`. -/
structure State (T : Type) where
  /-- The accepted requests, in the order of the queue. -/
  enqueued : List T
  /-- How many of them have been taken out. -/
  taken : Nat
  sessions : Nat → Session
  opened : Nat
  manager : Manager
  closer : Closer
  /-- The context is canceled. -/
  canceled : Bool
  closed : Bool
  /-- `generation`, or `connection` in `client1of1`. -/
  connection : Option Nat
  handed : List (Handed T)
  dropped : List Dropped
  discarded : List Nat

/-- A submission, or a step of one of the goroutines. -/
inductive Act (T : Type) where
  | submit (request : T)
  /-- The next step of the manager; `ok` is whether its dial succeeds, or its wait is not cut short. -/
  | manage (ok : Bool)
  /-- The next step of `Close`; `ok` is whether its `TryDequeue` finds a request. -/
  | close (ok : Bool)
  /-- The next step of the writer of session `g`; `ok` is whether its call succeeds. -/
  | write (g : Nat) (ok : Bool)
  /-- The reader of session `g` returns; `failed` if it reports an error. -/
  | read (g : Nat) (failed : Bool)

section Model

variable {T : Type}

/-- A new client, which is about to dial. -/
def State.init : State T where
  enqueued := []
  taken := 0
  sessions _ := ⟨false, .idle, .idle⟩
  opened := 0
  manager := .dial
  closer := .idle
  canceled := false
  closed := false
  connection := none
  handed := []
  dropped := []
  discarded := []

namespace State

variable (s : State T) (g : Nat)

/-- Session `g` becomes `x`. -/
def setSession (x : Session) : State T :=
  { s with sessions := Function.update s.sessions g x }

/-- The writer of session `g` goes on to `w`. -/
def setWriter (w : Writer) : State T := s.setSession g { s.sessions g with writer := w }

/-- `terminate`, or `close(stop)`. -/
def terminate : State T := s.setSession g { s.sessions g with done := true }

/-- The goroutines of session `g` start. -/
def startSession : State T :=
  { s.setSession g ⟨false, .check, .reading⟩ with opened := s.opened + 1 }

end State

/-- The writer or the reader of session `g` returns with an error: in `client` it terminates the
session itself, in `client1of1` it reports to the manager. -/
def failed (pkg : Package) (x : Session) : Session :=
  match pkg with
  | .client => { x with done := true }
  | .client1of1 => x

/-- The writer's `TryDequeue`: a request in hand, or on to `empty`. -/
def tryDequeue (s : State T) (g : Nat) (ok : Bool) (empty : Writer) : State T :=
  if ok ∧ s.taken < s.enqueued.length then
    { s.setWriter g (.holding s.taken (s.sessions g).done) with taken := s.taken + 1 }
  else s.setWriter g empty

/-- `sendRequests`. -/
def writerStep (pkg : Package) (s : State T) (g : Nat) (ok : Bool) : Option (State T) :=
  let x := s.sessions g
  match x.writer with
  | .idle => none
  | .check => some (s.setWriter g (if x.done then .leaving else .dequeue))
  | .dequeue => some (tryDequeue s g ok .wait)
  | .wait =>
    if ok then some (s.setWriter g .check)
    else if x.done then some (s.setWriter g .leaving) else none
  | .holding position stopping =>
    if x.done then
      some
        { s.setWriter g .leaving with
          dropped := s.dropped ++ [⟨g, position, stopping, x.done⟩] }
    else some (s.setWriter g (.buffer position))
  | .buffer position =>
    match s.enqueued[position]? with
    | none => none
    | some request =>
      some
        { s.setSession g
            (if ok then { x with writer := .next } else failed pkg { x with writer := .leaving }) with
          handed := s.handed ++ [⟨g, position, request⟩] }
  | .next => some (tryDequeue s g ok .flush)
  | .flush =>
    some (s.setSession g
      (if ok then { x with writer := .check } else failed pkg { x with writer := .leaving }))
  | .leaving => some (s.setWriter g .exited)
  | .exited => none

/-- `receiveResponses`, up to what it reads. -/
def readerStep (pkg : Package) (s : State T) (g : Nat) (isFailed : Bool) : Option (State T) :=
  let x := s.sessions g
  match x.reader with
  | .reading =>
    let y := { x with reader := Reader.leaving }
    some (s.setSession g (if isFailed then failed pkg y else y))
  | .leaving => some (s.setSession g { x with reader := .exited })
  | .idle | .exited => none

/-- The manager after a session and its pause, which both packages share. -/
def managePause (s : State T) (ok : Bool) : Option (State T) :=
  match s.manager with
  | .retry => some { s with manager := if s.canceled then .exited else .backoff }
  | .backoff =>
    if ok then some { s with manager := .dial }
    else if s.canceled then some { s with manager := .exited } else none
  | _ => none

/-- `replicaConn.manage`. -/
def manage (s : State T) (ok : Bool) : Option (State T) :=
  match s.manager with
  | .dial =>
    if ok then some { s.startSession s.opened with manager := .publishing s.opened }
    else some { s with manager := .backoff }
  | .publishing g =>
    if s.closed then some { s.terminate g with manager := .joining g true }
    else some { s with connection := some g, manager := .running g }
  | .running g =>
    if (s.sessions g).done ∨ s.canceled then some { s with manager := .clearing g } else none
  | .clearing g =>
    some
      { s with
        connection := if s.connection = some g then none else s.connection
        manager := .terminating g }
  | .terminating g => some { s.terminate g with manager := .joining g false }
  | .joining g last =>
    if (s.sessions g).Joined then some { s with manager := if last then .exited else .retry }
    else none
  | .starting _ | .exited => none
  | .retry | .backoff => managePause s ok

/-- `client1of1.Client.manageConnection`, with `runConnection`. -/
def manageConnection (s : State T) (ok : Bool) : Option (State T) :=
  match s.manager with
  | .dial =>
    if ok then some { s with manager := .publishing s.opened }
    else some { s with manager := .backoff }
  | .publishing g =>
    if s.closed ∨ s.canceled then some { s with manager := .exited }
    else some { s with connection := some g, manager := .starting g }
  | .starting g => some { s.startSession g with manager := .running g }
  | .running g =>
    -- a result of one of the goroutines, or the end of the context
    if (s.sessions g).writer ∈ [Writer.leaving, .exited] ∨
        (s.sessions g).reader ∈ [Reader.leaving, .exited] ∨ s.canceled then
      some { s with manager := .terminating g }
    else none
  | .terminating g => some { s.terminate g with manager := .joining g false }
  | .joining g _ =>
    if (s.sessions g).Joined then some { s with manager := .clearing g } else none
  | .clearing g =>
    some
      { s with
        connection := if s.connection = some g then none else s.connection
        manager := .retry }
  | .exited => none
  | .retry | .backoff => managePause s ok

/-- `Close`. In `client1of1` closing the published connection makes its reader fail. -/
def close (pkg : Package) (s : State T) (ok : Bool) : Option (State T) :=
  match s.closer with
  | .idle => some { s with canceled := true, closer := .mark }
  | .mark =>
    some
      { s with
        closed := true
        connection := none
        closer :=
          match pkg, s.connection with
          | .client, some g => .terminating g
          | _, _ => .waiting }
  | .terminating g => some { s.terminate g with closer := .joining g }
  | .joining g => if (s.sessions g).Joined then some { s with closer := .waiting } else none
  | .waiting => if s.manager = .exited then some { s with closer := .discarding } else none
  | .discarding =>
    if ok ∧ s.taken < s.enqueued.length then
      some { s with taken := s.taken + 1, discarded := s.discarded ++ [s.taken] }
    else some { s with closer := .closed }
  | .closed => none

/-- One step of the connection. -/
def step (pkg : Package) (s : State T) : Act T → Option (State T)
  | .submit request => some { s with enqueued := s.enqueued ++ [request] }
  | .manage ok =>
    match pkg with
    | .client => manage s ok
    | .client1of1 => manageConnection s ok
  | .close ok => close pkg s ok
  | .write g ok => writerStep pkg s g ok
  | .read g isFailed => readerStep pkg s g isFailed

end Model

/-! ## The invariant -/

variable {T : Type} {pkg : Package} {s s' : State T} {g : Nat}

/-- The goroutine has started and not returned. -/
def Writer.Active (w : Writer) : Prop := w ≠ .idle ∧ w ≠ .exited

/-- The position of the request in the writer's hand. -/
def Writer.position : Writer → Option Nat
  | .holding position _ => some position
  | .buffer position => some position
  | _ => none

/-- The session whose goroutines the manager has started and not joined. -/
def Manager.session (pkg : Package) : Manager → Option Nat
  | .running g | .terminating g | .joining g _ => some g
  | .publishing g | .clearing g =>
    match pkg with
    | .client => some g
    | .client1of1 => none
  | _ => none

/-- The session that the manager is about to start. -/
def Manager.upcoming (pkg : Package) : Manager → Option Nat
  | .starting g => some g
  | .publishing g =>
    match pkg with
    | .client => none
    | .client1of1 => some g
  | _ => none

/-- What became of position `p`, once it was taken out. -/
def Fate (s : State T) (p : Nat) : Prop :=
  (∃ x ∈ s.handed, x.position = p) ∨ (∃ g, (s.sessions g).writer.position = some p) ∨
    (∃ d ∈ s.dropped, d.position = p) ∨ p ∈ s.discarded

/-- **At most one connection writes**, and what was taken out is handed over in order. -/
structure Inv (pkg : Package) (s : State T) : Prop where
  taken_le : s.taken ≤ s.enqueued.length
  unopened : ∀ g, s.opened ≤ g → (s.sessions g).writer = .idle
  /-- The only running writer is that of the manager's session. -/
  alone : ∀ g, (s.sessions g).writer.Active → s.manager.session pkg = some g
  /-- It is the last session opened. -/
  current : ∀ g, s.manager.session pkg = some g → g + 1 = s.opened
  upcoming : ∀ g, s.manager.upcoming pkg = some g → g = s.opened
  discarding : s.closer = .discarding → s.manager = .exited
  /-- The request in hand is the last one taken out. -/
  held : ∀ g p, (s.sessions g).writer.position = some p →
    p + 1 = s.taken ∧ ∀ x ∈ s.handed, x.position < p
  handed_sorted : s.handed.Pairwise fun x y => x.position < y.position
  handed : ∀ x ∈ s.handed, x.position < s.taken ∧ s.enqueued[x.position]? = some x.request
  sessions_sorted : s.handed.Pairwise fun x y => x.session ≤ y.session
  handed_opened : ∀ x ∈ s.handed, x.session < s.opened
  fate : ∀ p, p < s.taken → Fate s p
  dropped : ∀ d ∈ s.dropped, d.stoppingAtDrop = true ∧
    ((s.sessions d.session).writer = .leaving ∨ (s.sessions d.session).writer = .exited)
  dropped_once : (s.dropped.map Dropped.session).Nodup

theorem inv_init (pkg : Package) : Inv pkg (State.init : State T) where
  taken_le := Nat.zero_le _
  unopened _ _ := rfl
  alone g h := absurd rfl h.1
  current g h := by cases h
  upcoming g h := by cases h
  discarding h := by cases h
  held g p h := by cases h
  handed_sorted := List.Pairwise.nil
  handed := by simp [State.init]
  sessions_sorted := List.Pairwise.nil
  handed_opened := by simp [State.init]
  fate p h := absurd h (Nat.not_lt_zero p)
  dropped := by simp [State.init]
  dropped_once := List.nodup_nil

/-- A writer with a request in hand is running. -/
theorem Writer.active_of_position {w : Writer} {p : Nat} (h : w.position = some p) : w.Active := by
  cases w <;> cases h <;> exact ⟨nofun, nofun⟩

/-- Two running writers are one. -/
theorem Inv.unique (h : Inv pkg s) {g g' : Nat} (hg : (s.sessions g).writer.Active)
    (hg' : (s.sessions g').writer.Active) : g = g' :=
  Option.some.inj ((h.alone g hg).symm.trans (h.alone g' hg'))

/-- Steps that touch neither the writers nor the queue. -/
theorem Inv.quiet (h : Inv pkg s) (hw : ∀ g, (s'.sessions g).writer = (s.sessions g).writer)
    (henq : s'.enqueued = s.enqueued) (htaken : s'.taken = s.taken) (hopen : s'.opened = s.opened)
    (hhanded : s'.handed = s.handed) (hdrop : s'.dropped = s.dropped)
    (hdis : s'.discarded = s.discarded)
    (halone : ∀ g, (s.sessions g).writer.Active → s'.manager.session pkg = some g)
    (hcur : ∀ g, s'.manager.session pkg = some g → g + 1 = s.opened)
    (hup : ∀ g, s'.manager.upcoming pkg = some g → g = s.opened)
    (hclose : s'.closer = .discarding → s'.manager = .exited) : Inv pkg s' where
  taken_le := by rw [htaken, henq]; exact h.taken_le
  unopened g hg := (hw g).trans (h.unopened g (hopen ▸ hg))
  alone g hg := halone g (hw g ▸ hg)
  current g hg := hopen.symm ▸ hcur g hg
  upcoming g hg := hopen.symm ▸ hup g hg
  discarding := hclose
  held g p hp := by
    rw [hw] at hp
    rw [htaken, hhanded]
    exact h.held g p hp
  handed_sorted := by rw [hhanded]; exact h.handed_sorted
  handed := by rw [hhanded, htaken, henq]; exact h.handed
  sessions_sorted := by rw [hhanded]; exact h.sessions_sorted
  handed_opened := by rw [hhanded, hopen]; exact h.handed_opened
  fate p hp := by
    simp only [Fate, hw, hhanded, hdrop, hdis]
    exact h.fate p (htaken ▸ hp)
  dropped := by
    rw [hdrop]
    intro d hd
    rw [hw]
    exact h.dropped d hd
  dropped_once := by rw [hdrop]; exact h.dropped_once

theorem State.setSession_writer {x : Session} (hx : x.writer = (s.sessions g).writer) (g' : Nat) :
    ((s.setSession g x).sessions g').writer = (s.sessions g').writer := by
  by_cases hg : g' = g
  · subst hg
    simp only [State.setSession, Function.update_self, hx]
  · simp only [State.setSession, Function.update_of_ne hg]

/-! ## The writer -/

/-- A step of the running writer of session `g`, which leaves it as `x`. -/
theorem Inv.writer (h : Inv pkg s) (hactive : (s.sessions g).writer.Active) (x : Session)
    (hsessions : s'.sessions = Function.update s.sessions g x) (hopen : s'.opened = s.opened)
    (hmanager : s'.manager = s.manager) (hcloser : s'.closer = s.closer)
    (henq : s'.enqueued = s.enqueued) (htaken_le : s'.taken ≤ s.enqueued.length)
    (hleaving : (s.sessions g).writer = .leaving → x.writer = .exited)
    (hheld : ∀ p, x.writer.position = some p → p + 1 = s'.taken ∧ ∀ y ∈ s'.handed, y.position < p)
    (hsorted : s'.handed.Pairwise fun y z => y.position < z.position)
    (hhanded : ∀ y ∈ s'.handed, y.position < s'.taken ∧ s.enqueued[y.position]? = some y.request)
    (hsession : s'.handed = s.handed ∨ ∃ y : Handed T, y.session = g ∧ s'.handed = s.handed ++ [y])
    (hfate : ∀ p, p < s'.taken → Fate s' p)
    (hdropped : s'.dropped = s.dropped ∨ x.writer = .leaving ∧
      ∃ d, d.session = g ∧ d.stoppingAtDrop = true ∧ (s.sessions g).writer ≠ .leaving ∧
        s'.dropped = s.dropped ++ [d]) : Inv pkg s' := by
  have hself : s'.sessions g = x := by rw [hsessions, Function.update_self]
  have hother : ∀ g', g' ≠ g → s'.sessions g' = s.sessions g' := fun g' hg' => by
    rw [hsessions, Function.update_of_ne hg']
  -- a session that dropped a request before has left, or leaves now
  have hold : ∀ d ∈ s.dropped, (s'.sessions d.session).writer = .leaving ∨
      (s'.sessions d.session).writer = .exited := by
    intro d hd
    by_cases hg : d.session = g
    · rcases (h.dropped d hd).2 with hw | hw
      · rw [hg] at hw ⊢
        exact .inr (hself ▸ hleaving hw)
      · exact absurd (hg ▸ hw) hactive.2
    · rw [hother _ hg]
      exact (h.dropped d hd).2
  constructor
  case taken_le => exact henq ▸ htaken_le
  case unopened =>
    intro g' hg'
    have hne : g' ≠ g := fun heq => hactive.1 (heq ▸ h.unopened g' (hopen ▸ hg'))
    rw [hother g' hne]
    exact h.unopened g' (hopen ▸ hg')
  case alone =>
    intro g' hg'
    rw [hmanager]
    by_cases heq : g' = g
    · subst heq
      exact h.alone g' hactive
    · rw [hother g' heq] at hg'
      exact h.alone g' hg'
  case current => rw [hmanager, hopen]; exact h.current
  case upcoming => rw [hmanager, hopen]; exact h.upcoming
  case discarding => rw [hcloser, hmanager]; exact h.discarding
  case held =>
    intro g' p hp
    by_cases heq : g' = g
    · subst heq
      exact hheld p (hself ▸ hp)
    · rw [hother g' heq] at hp
      exact absurd (h.unique (Writer.active_of_position hp) hactive) heq
  case handed_sorted => exact hsorted
  case handed => exact henq ▸ hhanded
  case sessions_sorted =>
    rcases hsession with heq | ⟨y, hy, heq⟩
    · rw [heq]
      exact h.sessions_sorted
    · rw [heq]
      refine List.pairwise_append.mpr ⟨h.sessions_sorted, List.pairwise_singleton .., ?_⟩
      intro x hx z hz
      obtain rfl := List.mem_singleton.mp hz
      have hlt := h.handed_opened x hx
      rw [← h.current g (h.alone g hactive)] at hlt
      exact hy ▸ Nat.le_of_lt_succ hlt
  case handed_opened =>
    rw [hopen]
    rcases hsession with heq | ⟨y, hy, heq⟩
    · rw [heq]
      exact h.handed_opened
    · rw [heq]
      intro x hx
      rcases List.mem_append.mp hx with hx | hx
      · exact h.handed_opened x hx
      · obtain rfl := List.mem_singleton.mp hx
        exact hy ▸ h.current g (h.alone g hactive) ▸ Nat.lt_succ_self g
  case fate => exact hfate
  case dropped =>
    intro d hd
    rcases hdropped with heq | ⟨hx, d₀, hg, hstop, _, heq⟩
    · rw [heq] at hd
      exact ⟨(h.dropped d hd).1, hold d hd⟩
    · rw [heq, List.mem_append, List.mem_singleton] at hd
      rcases hd with hd | rfl
      · exact ⟨(h.dropped d hd).1, hold d hd⟩
      · exact ⟨hstop, .inl (by rw [hg, hself, hx])⟩
  case dropped_once =>
    rcases hdropped with heq | ⟨hx, d₀, hg, _, hnot, heq⟩
    · rw [heq]
      exact h.dropped_once
    · rw [heq, List.map_append, List.map_singleton]
      refine List.nodup_append.mpr ⟨h.dropped_once, List.nodup_singleton _, ?_⟩
      intro id hid _ hmem heq'
      obtain ⟨d, hd, rfl⟩ := List.mem_map.mp hid
      rw [List.mem_singleton.mp hmem, hg] at heq'
      rcases (h.dropped d hd).2 with hw | hw
      · exact hnot (heq' ▸ hw)
      · exact hactive.2 (heq' ▸ hw)

/-- No request is in hand but that of session `g`. -/
theorem Inv.fate_other (h : Inv pkg s) (hactive : (s.sessions g).writer.Active) {p : Nat}
    (hp : p < s.taken) : (∃ y ∈ s.handed, y.position = p) ∨
      (s.sessions g).writer.position = some p ∨ (∃ d ∈ s.dropped, d.position = p) ∨
        p ∈ s.discarded := by
  rcases h.fate p hp with hf | ⟨g', hf⟩ | hf
  · exact .inl hf
  · obtain rfl := h.unique (Writer.active_of_position hf) hactive
    exact .inr (.inl hf)
  · exact .inr (.inr hf)

/-- The writer moves on with its hands as they were. -/
theorem Inv.moveWriter (h : Inv pkg s) (hactive : (s.sessions g).writer.Active) {x : Session}
    (hx : x.writer.position = (s.sessions g).writer.position)
    (hleaving : (s.sessions g).writer = .leaving → x.writer = .exited) :
    Inv pkg (s.setSession g x) := by
  refine h.writer hactive x rfl rfl rfl rfl rfl h.taken_le hleaving (fun p hp => ?_)
    h.handed_sorted h.handed (.inl rfl) (fun p hp => ?_) (.inl rfl)
  · exact h.held g p (hx ▸ hp)
  · rcases h.fate_other hactive hp with hf | hf | hf
    · exact .inl hf
    · refine .inr (.inl ⟨g, ?_⟩)
      simp only [State.setSession, Function.update_self, hx, hf]
    · exact .inr (.inr hf)

theorem Inv.tryDequeue (h : Inv pkg s) (ok : Bool) {empty : Writer}
    (hw : (s.sessions g).writer = .dequeue ∨ (s.sessions g).writer = .next)
    (hempty : empty.position = none) : Inv pkg (tryDequeue s g ok empty) := by
  have hactive : (s.sessions g).writer.Active := by
    rcases hw with hw | hw <;> rw [hw] <;> exact ⟨nofun, nofun⟩
  have hnone : (s.sessions g).writer.position = none := by
    rcases hw with hw | hw <;> rw [hw] <;> rfl
  have hleaving : ∀ w, (s.sessions g).writer = .leaving → w = Writer.exited := fun w hl => by
    rcases hw with hw | hw <;> rw [hw] at hl <;> cases hl
  unfold Sessions.tryDequeue
  split_ifs with hlt
  · refine h.writer hactive _ rfl rfl rfl rfl rfl hlt.2 (hleaving _) (fun p hp => ?_)
      h.handed_sorted (fun y hy => ?_) (.inl rfl) (fun p hp => ?_) (.inl rfl)
    · obtain rfl := Option.some.inj hp
      exact ⟨rfl, fun y hy => (h.handed y hy).1⟩
    · exact ⟨Nat.lt_succ_of_lt (h.handed y hy).1, (h.handed y hy).2⟩
    · rcases (Nat.lt_succ_iff_lt_or_eq.mp hp) with hp | rfl
      · rcases h.fate_other hactive hp with hf | hf | hf
        · exact .inl hf
        · rw [hnone] at hf
          cases hf
        · exact .inr (.inr hf)
      · refine .inr (.inl ⟨g, ?_⟩)
        simp only [State.setWriter, State.setSession, Function.update_self, Writer.position]
  · exact h.moveWriter hactive (hempty.trans hnone.symm) (hleaving _)

theorem failed_writer (pkg : Package) (x : Session) : (failed pkg x).writer = x.writer := by
  cases pkg <;> rfl

theorem writerStep_inv (h : Inv pkg s) {ok : Bool} (hs : writerStep pkg s g ok = some s') :
    Inv pkg s' := by
  have hmove : ∀ {w w' : Writer}, (s.sessions g).writer = w → w.Active → w.position = none →
      w ≠ .leaving → w'.position = none → ∀ x : Session, x.writer = w' →
      Inv pkg (s.setSession g x) := by
    intro w w' hw hactive hp hl hp' x hx
    refine h.moveWriter (hw ▸ hactive) ?_ fun hw' => absurd (hw.symm.trans hw') hl
    rw [hx, hp', hw, hp]
  unfold writerStep at hs
  dsimp only at hs
  split at hs
  case h_1 | h_10 => cases hs
  case h_2 hw =>
    cases hs
    exact hmove hw ⟨nofun, nofun⟩ rfl nofun (by split_ifs <;> rfl) _ rfl
  case h_3 hw =>
    cases hs
    exact h.tryDequeue ok (.inl hw) rfl
  case h_4 hw =>
    split_ifs at hs <;> cases hs
    · exact hmove hw ⟨nofun, nofun⟩ rfl nofun rfl _ rfl
    · exact hmove hw ⟨nofun, nofun⟩ rfl nofun rfl _ rfl
  case h_5 position stopping hw =>
    have hactive : (s.sessions g).writer.Active := hw ▸ ⟨nofun, nofun⟩
    split_ifs at hs with hdone <;> cases hs
    · -- the request in hand is dropped
      refine h.writer hactive _ rfl rfl rfl rfl rfl h.taken_le (fun hl => ?_) nofun h.handed_sorted
        h.handed (.inl rfl) (fun p hp => ?_) (.inr ⟨rfl, _, rfl, hdone, ?_, rfl⟩)
      · rw [hw] at hl
        cases hl
      · rcases h.fate_other hactive hp with hf | hf | ⟨d, hd, hf⟩ | hf
        · exact .inl hf
        · rw [hw] at hf
          exact .inr (.inr (.inl ⟨_, List.mem_append_right _ List.mem_cons_self,
            Option.some.inj hf⟩))
        · exact .inr (.inr (.inl ⟨d, List.mem_append_left _ hd, hf⟩))
        · exact .inr (.inr (.inr hf))
      · rw [hw]
        exact nofun
    · refine h.moveWriter hactive ?_ fun hl => ?_
      · rw [hw]
        rfl
      · rw [hw] at hl
        cases hl
  case h_6 position hw =>
    have hactive : (s.sessions g).writer.Active := hw ▸ ⟨nofun, nofun⟩
    obtain ⟨htaken, hbelow⟩ := h.held g position (by rw [hw]; rfl)
    split at hs
    · cases hs
    · next request hreq =>
      cases hs
      have hpos : (if ok = true then { s.sessions g with writer := Writer.next }
          else failed pkg { s.sessions g with writer := .leaving }).writer.position = none := by
        split_ifs
        · rfl
        · rw [failed_writer]
          rfl
      refine h.writer hactive _ rfl rfl rfl rfl rfl h.taken_le (fun hl => ?_) (fun p hp => ?_) ?_
        (fun y hy => ?_) (.inr ⟨_, rfl, rfl⟩) (fun p hp => ?_) (.inl rfl)
      · rw [hw] at hl
        cases hl
      · rw [hpos] at hp
        cases hp
      · refine List.pairwise_append.mpr ⟨h.handed_sorted, List.pairwise_singleton .., ?_⟩
        intro y hy z hz
        obtain rfl := List.mem_singleton.mp hz
        exact hbelow y hy
      · rcases List.mem_append.mp hy with hy | hy
        · exact h.handed y hy
        · obtain rfl := List.mem_singleton.mp hy
          exact ⟨htaken ▸ Nat.lt_succ_self _, hreq⟩
      · rcases h.fate_other hactive hp with ⟨y, hy, hf⟩ | hf | hf
        · exact .inl ⟨y, List.mem_append_left _ hy, hf⟩
        · rw [hw] at hf
          exact .inl ⟨_, List.mem_append_right _ List.mem_cons_self, Option.some.inj hf⟩
        · exact .inr (.inr hf)
  case h_7 hw =>
    cases hs
    exact h.tryDequeue ok (.inr hw) rfl
  case h_8 hw =>
    cases hs
    split_ifs
    · exact hmove hw ⟨nofun, nofun⟩ rfl nofun rfl _ rfl
    · exact hmove hw ⟨nofun, nofun⟩ rfl nofun rfl _ (failed_writer ..)
  case h_9 hw =>
    cases hs
    refine h.moveWriter (hw ▸ ⟨nofun, nofun⟩) ?_ fun _ => rfl
    rw [hw]
    rfl

theorem readerStep_inv (h : Inv pkg s) {isFailed : Bool}
    (hs : readerStep pkg s g isFailed = some s') : Inv pkg s' := by
  have hquiet : ∀ x : Session, x.writer = (s.sessions g).writer → Inv pkg (s.setSession g x) :=
    fun x hx => h.quiet (State.setSession_writer hx) rfl rfl rfl rfl rfl rfl h.alone h.current
      h.upcoming h.discarding
  unfold readerStep at hs
  dsimp only at hs
  split at hs
  · cases hs
    split_ifs
    · exact hquiet _ (failed_writer ..)
    · exact hquiet _ rfl
  · cases hs
    exact hquiet _ rfl
  · cases hs
  · cases hs

/-! ## The manager and `Close` -/

/-- The manager moves on within a session, whose `done` channel may be closed on the way. -/
theorem Inv.within (h : Inv pkg s) {m m' : Manager} {c : Option Nat} {sessions : Nat → Session}
    (hm : s.manager = m) (hg : m.session pkg = some g) (hg' : m'.session pkg = some g)
    (hup : m'.upcoming pkg = none) (hw : ∀ g, (sessions g).writer = (s.sessions g).writer) :
    Inv pkg { s with sessions := sessions, connection := c, manager := m' } := by
  subst hm
  refine h.quiet hw rfl rfl rfl rfl rfl rfl (fun g' hactive => ?_) (fun g' hg'' => ?_)
    (fun g' hg'' => ?_) fun hc => ?_
  · exact hg'.trans (hg.symm.trans (h.alone g' hactive))
  · exact h.current g' (hg.trans (hg'.symm.trans hg''))
  · cases hup.symm.trans hg''
  · rw [h.discarding hc] at hg
    cases hg

/-- The manager moves on while no session runs. -/
theorem Inv.without (h : Inv pkg s) {m m' : Manager} {c : Option Nat} (hm : s.manager = m)
    (hne : m ≠ .exited) (hinactive : ∀ g, ¬(s.sessions g).writer.Active)
    (hg' : m'.session pkg = none) (hup : ∀ g, m'.upcoming pkg = some g → g = s.opened) :
    Inv pkg { s with connection := c, manager := m' } := by
  subst hm
  refine h.quiet (fun _ => rfl) rfl rfl rfl rfl rfl rfl (fun g' hactive => ?_) (fun g' hg'' => ?_)
    hup fun hc => absurd (h.discarding hc) hne
  · exact absurd hactive (hinactive g')
  · cases hg'.symm.trans hg''

/-- Without a session of the manager, no writer runs. -/
theorem Inv.inactive (h : Inv pkg s) (hm : s.manager.session pkg = none) (g : Nat) :
    ¬(s.sessions g).writer.Active := fun hg => by
  have := h.alone g hg
  rw [hm] at this
  cases this

/-- **A new writer starts only when no other runs.** -/
theorem Inv.startSession (h : Inv pkg s) {m : Manager} (hidle : s.manager.session pkg = none)
    (hne : s.manager ≠ .exited) (hsession : m.session pkg = some s.opened)
    (hup : m.upcoming pkg = none) : Inv pkg { s.startSession s.opened with manager := m } := by
  have hinactive := h.inactive hidle
  have hother : ∀ g, g ≠ s.opened →
      (s.startSession s.opened).sessions g = s.sessions g := fun g hg => by
    simp only [State.startSession, State.setSession, Function.update_of_ne hg]
  have hself : ((s.startSession s.opened).sessions s.opened).writer = .check := by
    simp only [State.startSession, State.setSession, Function.update_self]
  have hpos : ∀ g p, ((s.startSession s.opened).sessions g).writer.position ≠ some p := by
    intro g p hp
    by_cases hg : g = s.opened
    · rw [hg, hself] at hp
      cases hp
    · rw [hother g hg] at hp
      exact hinactive g (Writer.active_of_position hp)
  constructor
  case taken_le => exact h.taken_le
  case unopened =>
    intro g hg
    refine (congrArg Session.writer (hother g ?_)).trans (h.unopened g (Nat.le_of_succ_le hg))
    exact Nat.ne_of_gt (Nat.lt_of_succ_le hg)
  case alone =>
    intro g hg
    by_cases heq : g = s.opened
    · exact heq ▸ hsession
    · exact absurd (hother g heq ▸ hg) (hinactive g)
  case current =>
    intro g hg
    rw [hsession] at hg
    exact congrArg (· + 1) (Option.some.inj hg).symm
  case upcoming =>
    intro g hg
    rw [hup] at hg
    cases hg
  case discarding => exact fun hc => absurd (h.discarding hc) hne
  case held => exact fun g p hp => absurd hp (hpos g p)
  case handed_sorted => exact h.handed_sorted
  case handed => exact h.handed
  case sessions_sorted => exact h.sessions_sorted
  case handed_opened => exact fun x hx => Nat.lt_succ_of_lt (h.handed_opened x hx)
  case fate =>
    intro p hp
    rcases h.fate p hp with hf | ⟨g, hf⟩ | hf
    · exact .inl hf
    · exact absurd (Writer.active_of_position hf) (hinactive g)
    · exact .inr (.inr hf)
  case dropped =>
    intro d hd
    obtain ⟨hstop, hw⟩ := h.dropped d hd
    have hg : d.session ≠ s.opened := fun heq => by
      rw [heq, h.unopened s.opened (Nat.le_refl _)] at hw
      rcases hw with hw | hw <;> cases hw
    exact ⟨hstop, hother d.session hg ▸ hw⟩
  case dropped_once => exact h.dropped_once

/-- A joined session has no running writer. -/
theorem Inv.joined (h : Inv pkg s) (hm : s.manager.session pkg = some g)
    (hj : (s.sessions g).Joined) (g' : Nat) : ¬(s.sessions g').writer.Active := fun hg' => by
  obtain rfl := Option.some.inj ((h.alone g' hg').symm.trans hm)
  exact hg'.2 hj.1

theorem managePause_inv (h : Inv pkg s) {ok : Bool} (hs : managePause s ok = some s') :
    Inv pkg s' := by
  unfold managePause at hs
  split at hs
  case h_1 hm =>
    cases hs
    refine h.without hm nofun (h.inactive (by rw [hm]; rfl)) ?_ fun g hg => ?_
    · split_ifs <;> rfl
    · split_ifs at hg <;> cases hg
  case h_2 hm =>
    have hinactive := h.inactive (by rw [hm]; rfl)
    split_ifs at hs <;> cases hs
    · exact h.without hm nofun hinactive rfl nofun
    · exact h.without hm nofun hinactive rfl nofun
  case h_3 => cases hs

theorem manage_inv (h : Inv .client s) {ok : Bool} (hs : manage s ok = some s') :
    Inv .client s' := by
  unfold manage at hs
  split at hs
  case h_1 hm =>
    have hidle : s.manager.session .client = none := by rw [hm]; rfl
    split_ifs at hs <;> cases hs
    · exact h.startSession hidle (by rw [hm]; exact nofun) rfl rfl
    · exact h.without hm nofun (h.inactive hidle) rfl nofun
  case h_2 g hm =>
    split_ifs at hs <;> cases hs
    · exact h.within hm rfl rfl rfl (State.setSession_writer rfl)
    · exact h.within hm rfl rfl rfl fun _ => rfl
  case h_3 g hm =>
    split_ifs at hs
    cases hs
    exact h.within hm rfl rfl rfl fun _ => rfl
  case h_4 g hm =>
    cases hs
    exact h.within hm rfl rfl rfl fun _ => rfl
  case h_5 g hm =>
    cases hs
    exact h.within hm rfl rfl rfl (State.setSession_writer rfl)
  case h_6 g last hm =>
    split_ifs at hs with hj <;> cases hs
    all_goals exact h.without hm nofun (h.joined (by rw [hm]; rfl) hj) rfl nofun
  case h_7 | h_8 => cases hs
  case h_9 | h_10 => exact managePause_inv h hs

theorem manageConnection_inv (h : Inv .client1of1 s) {ok : Bool}
    (hs : manageConnection s ok = some s') : Inv .client1of1 s' := by
  unfold manageConnection at hs
  split at hs
  case h_1 hm =>
    have hinactive := h.inactive (by rw [hm]; rfl)
    split_ifs at hs <;> cases hs
    · exact h.without hm nofun hinactive rfl fun g hg => (Option.some.inj hg).symm
    · exact h.without hm nofun hinactive rfl nofun
  case h_2 g hm =>
    have hinactive := h.inactive (by rw [hm]; rfl)
    have hup := h.upcoming
    rw [hm] at hup
    split_ifs at hs <;> cases hs
    · exact h.without hm nofun hinactive rfl nofun
    · exact h.without hm nofun hinactive rfl hup
  case h_3 g hm =>
    cases hs
    obtain rfl := h.upcoming g (by rw [hm]; rfl)
    exact h.startSession (by rw [hm]; rfl) (by rw [hm]; exact nofun) rfl rfl
  case h_4 g hm =>
    split_ifs at hs
    cases hs
    exact h.within hm rfl rfl rfl fun _ => rfl
  case h_5 g hm =>
    cases hs
    exact h.within hm rfl rfl rfl (State.setSession_writer rfl)
  case h_6 g last hm =>
    split_ifs at hs with hj
    cases hs
    exact h.without hm nofun (h.joined (by rw [hm]; rfl) hj) rfl nofun
  case h_7 g hm =>
    cases hs
    exact h.without hm nofun (h.inactive (by rw [hm]; rfl)) rfl nofun
  case h_8 => cases hs
  case h_9 | h_10 => exact managePause_inv h hs

theorem close_inv (h : Inv pkg s) {ok : Bool} (hs : close pkg s ok = some s') : Inv pkg s' := by
  unfold close at hs
  split at hs
  case h_1 =>
    cases hs
    exact h.quiet (fun _ => rfl) rfl rfl rfl rfl rfl rfl h.alone h.current h.upcoming nofun
  case h_2 =>
    cases hs
    refine h.quiet (fun _ => rfl) rfl rfl rfl rfl rfl rfl h.alone h.current h.upcoming fun hc => ?_
    dsimp only at hc
    split at hc <;> cases hc
  case h_3 g _ =>
    cases hs
    exact h.quiet (State.setSession_writer rfl) rfl rfl rfl rfl rfl rfl h.alone h.current h.upcoming nofun
  case h_4 =>
    split_ifs at hs
    cases hs
    exact h.quiet (fun _ => rfl) rfl rfl rfl rfl rfl rfl h.alone h.current h.upcoming nofun
  case h_5 =>
    split_ifs at hs with hm
    cases hs
    exact h.quiet (fun _ => rfl) rfl rfl rfl rfl rfl rfl h.alone h.current h.upcoming fun _ => hm
  case h_6 hc =>
    have hinactive := h.inactive (by rw [h.discarding hc]; rfl)
    split_ifs at hs with hlt <;> cases hs
    · -- the manager has returned, so `Close` is alone with the queue
      refine ⟨hlt.2, h.unopened, h.alone, h.current, h.upcoming, h.discarding, fun g p hp => ?_,
        h.handed_sorted, fun x hx => ?_, h.sessions_sorted, h.handed_opened, fun p hp => ?_,
        h.dropped, h.dropped_once⟩
      · exact absurd (Writer.active_of_position hp) (hinactive g)
      · exact ⟨Nat.lt_succ_of_lt (h.handed x hx).1, (h.handed x hx).2⟩
      · rcases Nat.lt_succ_iff_lt_or_eq.mp hp with hp | rfl
        · rcases h.fate p hp with hf | hf | hf | hf
          · exact .inl hf
          · exact .inr (.inl hf)
          · exact .inr (.inr (.inl hf))
          · exact .inr (.inr (.inr (List.mem_append_left _ hf)))
        · exact .inr (.inr (.inr (List.mem_append_right _ List.mem_cons_self)))
    · exact h.quiet (fun _ => rfl) rfl rfl rfl rfl rfl rfl h.alone h.current h.upcoming nofun
  case h_7 => cases hs

/-- **Every step keeps the invariant**, in either package. -/
theorem step_inv {a : Act T} (h : Inv pkg s) (hs : step pkg s a = some s') : Inv pkg s' := by
  cases a with
  | submit request =>
    cases hs
    refine ⟨?_, h.unopened, h.alone, h.current, h.upcoming, h.discarding, h.held, h.handed_sorted,
      fun x hx => ⟨(h.handed x hx).1, ?_⟩, h.sessions_sorted, h.handed_opened, h.fate, h.dropped,
      h.dropped_once⟩
    · rw [List.length_append]
      exact Nat.le_add_right_of_le h.taken_le
    · have hlt : x.position < s.enqueued.length := Nat.lt_of_lt_of_le (h.handed x hx).1 h.taken_le
      rw [List.getElem?_append_left hlt]
      exact (h.handed x hx).2
  | manage ok =>
    cases pkg with
    | client => exact manage_inv h hs
    | client1of1 => exact manageConnection_inv h hs
  | close ok => exact close_inv h hs
  | write g ok => exact writerStep_inv h hs
  | read g isFailed => exact readerStep_inv h hs

/-! ## The results -/

/-- Who takes requests out of the queue. -/
inductive Consumer where
  | writer (session : Nat)
  | discard

/-- A goroutine that may take requests out of the queue is running. -/
def Consumer.Running (s : State T) : Consumer → Prop
  | .writer g => (s.sessions g).writer.Active
  | .discard => s.closer = .discarding

/-- **At most one consumer.** -/
theorem single_consumer (h : Inv pkg s) {c c' : Consumer} (hc : c.Running s) (hc' : c'.Running s) :
    c = c' := by
  have hdiscard : s.closer = .discarding → ∀ g, ¬(s.sessions g).writer.Active := fun hd =>
    h.inactive (by rw [h.discarding hd]; rfl)
  cases c with
  | writer g =>
    cases c' with
    | writer g' => exact congrArg Consumer.writer (h.unique hc hc')
    | discard => exact absurd hc (hdiscard hc' g)
  | discard =>
    cases c' with
    | writer g' => exact absurd hc' (hdiscard hc g')
    | discard => rfl

/-- Elements at increasing positions of a list, in that order, are a sublist of it. -/
theorem sublist_of_positions {l : List T} {xs : List (Handed T)}
    (hsorted : xs.Pairwise fun x y => x.position < y.position) {k : Nat}
    (hk : ∀ x ∈ xs, k ≤ x.position) (hget : ∀ x ∈ xs, l[x.position]? = some x.request) :
    (xs.map Handed.request).Sublist (l.drop k) := by
  induction xs generalizing k with
  | nil => exact List.nil_sublist _
  | cons x xs ih =>
    obtain ⟨hx, hrest⟩ := List.pairwise_cons.mp hsorted
    have hdrop : (l.drop x.position).Sublist (l.drop k) :=
      List.drop_sublist_drop_left l (hk x List.mem_cons_self)
    obtain ⟨hlt, hreq⟩ := List.getElem?_eq_some_iff.mp (hget x List.mem_cons_self)
    refine List.Sublist.trans ?_ hdrop
    rw [List.drop_eq_getElem_cons hlt, hreq, List.map_cons]
    exact (ih hrest (fun y hy => hx y hy) fun y hy => hget y (List.mem_cons_of_mem _ hy)).cons_cons _

/-- In-order, at-most-once transmission, in a state. -/
structure InOrder (s : State T) : Prop where
  single : ∀ c c' : Consumer, c.Running s → c'.Running s → c = c'
  /-- `handed` is the concatenation over the sessions, in their order. -/
  by_session : s.handed.Pairwise fun x y => x.session ≤ y.session
  subsequence : (s.handed.map Handed.request).Sublist s.enqueued
  /-- Each position of the queue is handed over at most once, with the request accepted there. -/
  once : (s.handed.map Handed.position).Nodup
  accepted : ∀ x ∈ s.handed, s.enqueued[x.position]? = some x.request
  /-- A request that was taken out has been handed over, or is in the hand of the running writer, or
  was dropped by a session that was stopping when it dropped it, or was discarded by `Close`. -/
  fate : ∀ p, p < s.taken → (∃ x ∈ s.handed, x.position = p) ∨
    (∃ g, (s.sessions g).writer.Active ∧ (s.sessions g).writer.position = some p) ∨
      (∃ d ∈ s.dropped, d.position = p ∧ d.stoppingAtDrop = true) ∨ p ∈ s.discarded
  /-- A session drops at most one. -/
  dropped_once : (s.dropped.map Dropped.session).Nodup

/-- **In-order, at-most-once transmission across reconnects**, for a replica of `client` and for
`client1of1.Client`: whatever the sequence of connects, failures, reconnects, submissions and
`Close`. -/
theorem transmission_in_order (pkg : Package) (acts : List (Act T))
    (he : Lib.Trans.exec (step pkg) State.init acts = some s) : InOrder s := by
  have h : Inv pkg s := Lib.Trans.exec_invariant (fun hi hs => step_inv hi hs) (inv_init pkg) he
  refine ⟨fun c c' => single_consumer h, h.sessions_sorted, ?_, ?_, fun x hx => (h.handed x hx).2,
    fun p hp => ?_, h.dropped_once⟩
  · have hsub := sublist_of_positions h.handed_sorted (fun x _ => Nat.zero_le x.position)
      fun x hx => (h.handed x hx).2
    rwa [List.drop_zero] at hsub
  · exact (List.pairwise_map.mpr (h.handed_sorted.imp fun hlt => Nat.ne_of_lt hlt))
  · rcases h.fate p hp with hf | ⟨g, hf⟩ | ⟨d, hd, hf⟩ | hf
    · exact .inl hf
    · exact .inr (.inl ⟨g, Writer.active_of_position hf, hf⟩)
    · exact .inr (.inr (.inl ⟨d, hd, hf, (h.dropped d hd).1⟩))
    · exact .inr (.inr (.inr hf))

/-- A session hands over the first request and takes the second out; its reader fails before the
writer looks at `done` again. -/
def brokenActs : List (Act Nat) :=
  [.submit 10, .submit 11, .submit 12, .submit 13, .manage true, .manage true, .write 0 true,
    .write 0 true, .write 0 true, .write 0 true, .write 0 true, .read 0 true, .write 0 true]

/-- The manager joins the broken session and opens another, which hands over the third request;
`Close` discards the fourth. -/
def reconnectActs : List (Act Nat) :=
  [.manage true, .manage true, .manage true, .write 0 true, .read 0 true, .manage true,
    .manage true, .manage true, .manage true, .manage true, .write 1 true, .write 1 true,
    .write 1 true, .write 1 true, .write 1 false, .close true, .close true, .close true,
    .write 1 true, .write 1 true, .write 1 true, .read 1 true, .read 1 true, .close true,
    .manage true, .manage true, .manage true, .manage true, .manage true, .close true, .close true]

theorem transmission_in_order_reconnectActs :
    ∃ s, Lib.Trans.exec (step .client) State.init (brokenActs ++ reconnectActs) = some s ∧
      InOrder s ∧ s.handed.map Handed.request = [10, 12] ∧ s.discarded = [3] := by
  have hrun : (Lib.Trans.exec (step .client) State.init (brokenActs ++ reconnectActs)).map
      (fun s => (s.handed.map Handed.request, s.discarded)) = some ([10, 12], [3]) := by
    decide +kernel
  obtain ⟨s, he, hs⟩ := Option.map_eq_some_iff.mp hrun
  exact ⟨s, he, transmission_in_order .client _ he, congrArg Prod.fst hs, congrArg Prod.snd hs⟩

/-- A request that was neither handed over nor discarded, taken out by a session that was not yet
stopping. -/
theorem dropped_by_running_session :
    ∃ s, Lib.Trans.exec (step .client) State.init brokenActs = some s ∧
      ¬∀ p, p < s.taken → (∃ x ∈ s.handed, x.position = p) ∨
        (∃ g, (s.sessions g).writer.position = some p) ∨
          (∃ d ∈ s.dropped, d.position = p ∧ d.stoppingAtDequeue = true) ∨ p ∈ s.discarded := by
  have hrun : (Lib.Trans.exec (step .client) State.init brokenActs).map
      (fun s => (s.taken, s.handed.map Handed.position, s.dropped, s.discarded)) =
      some (2, [0], [⟨0, 1, false, true⟩], []) := by
    decide +kernel
  have hhand : (Lib.Trans.exec (step .client) State.init brokenActs).map
      (fun s => (s.manager, (s.sessions 0).writer)) = some (.running 0, .leaving) := by
    decide +kernel
  obtain ⟨s, he, hs⟩ := Option.map_eq_some_iff.mp hrun
  rw [he] at hhand
  obtain ⟨hmanager, hwriter⟩ := Prod.mk.inj (Option.some.inj hhand)
  simp only [Prod.mk.injEq] at hs
  obtain ⟨htaken, hhanded, hdropped, hdiscarded⟩ := hs
  have h : Inv .client s :=
    Lib.Trans.exec_invariant (fun hi hs => step_inv hi hs) (inv_init .client) he
  refine ⟨s, he, fun hall => ?_⟩
  rcases hall 1 (by rw [htaken]; decide) with ⟨x, hx, hp⟩ | ⟨g, hg⟩ | ⟨d, hd, _, hstop⟩ | hd
  · have hmem := List.mem_map_of_mem (f := Handed.position) hx
    rw [hhanded, hp] at hmem
    exact absurd hmem (by decide)
  · -- the only running writer is that of the broken session, and its hand is empty
    have hg0 := h.alone g (Writer.active_of_position hg)
    rw [hmanager] at hg0
    obtain rfl := Option.some.inj hg0
    rw [hwriter] at hg
    cases hg
  · rw [hdropped] at hd
    obtain rfl := List.mem_singleton.mp hd
    cases hstop
  · rw [hdiscarded] at hd
    cases hd

end RedLease.Sessions
