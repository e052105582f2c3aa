import RedLease.Client.Responses
import RedLease.Client.Sessions
import RedLease.Lib.Mutex

/-!
# The end of a client

What `Close` leaves behind, for a replica of package `client` (`replica_conn.go`,
`connection_generation.go`) and for `client1of1.Client` (`client.go`, `connection.go`): submissions,
the pending maps, the workers that complete requests, waiters that give up, and `Close`, around the
connection of `Sessions.lean`.

A submission holds the lock of its shard from the check of the context to the end of `TryEnqueue`,
and every other thread may move in between: so the check, the claim of a slot in the ring and its
publication are steps of their own. `TryDequeue` finds a request exactly when the next slot is
published. Who removes an entry does so in one step, under the lock, and sends the result in another,
outside it.

`Close` empties the maps one after the other and leaves them nil. `client` does so after it has
joined the manager and joins the workers afterwards; `client1of1` does so first, and its manager
includes the workers. Both discard the queue last.

* **`Inv.closed`**: when `Close` has returned the queue and the maps are empty, every waiter has its
  one result or has removed its own entry and is about to send the result to itself, and every later
  submission is refused, and can return.
-/

namespace RedLease.Shutdown

open Lib Client
open Sessions (Package)

/-- Where a submission stands (`submitForOperation`, `submitNoResponse` and `enqueue`). -/
inductive Submission where
  | idle
  /-- Before the lock of the shard. `waits` if it has a waiter to register. -/
  | entering (waits : Bool)
  /-- Before the check of the context. -/
  | checking (waits : Bool)
  /-- Before `TryEnqueue`. -/
  | registered (waits : Bool)
  /-- In `TryEnqueue`, with a slot that is claimed and not published. -/
  | publishing (position : Nat)
  /-- Before the unlock. -/
  | leaving (ok : Bool)
  | returned (ok : Bool)
  deriving DecidableEq, Repr

/-- Where `completeResponses` stands. -/
inductive Worker where
  | waiting
  /-- In `completeInShard`, before the lock. -/
  | completing (requestID : Nat)
  /-- The entry is removed. -/
  | sending (requestID : Nat)
  | exited
  deriving DecidableEq, Repr

/-- Where the loop over the shards stands, in `failPending` or in `Close`. -/
inductive Sweep where
  | shard (next : Nat)
  /-- The map of shard `j` is taken, and these waiters have no result yet. -/
  | sending (j : Nat) (todo : List Nat)
  deriving DecidableEq, Repr

/-- A replica of either package at its end. -/
structure State where
  /-- The connection, with the request queue, the manager and the rest of `Close`. -/
  base : Sessions.State Nat
  /-- The positions of the queue that are claimed and not published. -/
  unpublished : List Nat
  /-- Who holds the lock of a shard. -/
  mu : Nat → Option Nat
  /-- The request IDs in the map of a shard, `none` if it is nil. -/
  pending : Nat → Option (List Nat)
  submissions : Nat → Submission
  workers : Nat → Worker
  /-- The waiter has removed its own entry and has not sent the result. -/
  own : Nat → Bool
  sweep : Sweep
  /-- A write to a nil map. -/
  panicked : Bool
  /-- Who has registered a waiter; a submission that finds the queue full takes it back. -/
  registered : Nat → Bool
  /-- How many results were sent to a waiter. -/
  results : Nat → Nat

/-- A step of a submission, a worker, a waiter, the loop over the shards or the connection. -/
inductive Act where
  /-- A step of the connection, its manager or the rest of `Close`. -/
  | session (a : Sessions.Act Nat)
  | submit (requestID : Nat) (waits : Bool)
  /-- The context of the caller has ended. -/
  | refuse (requestID : Nat)
  /-- The next step of a submission; `room` is whether the queue has room. -/
  | enqueue (requestID : Nat) (room : Bool)
  /-- The worker of the shard takes a response with this request ID. -/
  | respond (requestID : Nat)
  /-- The next step of `completeInShard` in the worker. -/
  | complete (j : Nat)
  /-- The worker sees that the context has ended. -/
  | retire (j : Nat)
  /-- The waiter removes its own entry: its deadline has passed, or it is cancelled. -/
  | giveUp (requestID : Nat)
  /-- And sends the result to itself. -/
  | deliver (requestID : Nat)
  /-- The next step of the loop over the shards. -/
  | sweep

namespace State

variable (s : State)

/-- A new client. -/
def init : State where
  base := .init
  unpublished := []
  mu _ := none
  pending _ := some []
  submissions _ := .idle
  workers _ := .waiting
  own _ := false
  sweep := .shard 0
  panicked := false
  registered _ := false
  results _ := 0

/-- The next slot of the queue is published. -/
def ready : Bool :=
  decide (s.base.taken < s.base.enqueued.length) && !s.unpublished.contains s.base.taken

/-- `Close` has emptied every shard. -/
def swept : Bool := decide (s.sweep = .shard pendingShardCount)

/-- `completionWorkers.Wait()` returns. -/
def retired : Bool := (List.range pendingShardCount).all fun j => decide (s.workers j = .exited)

/-- The entries of a shard; a nil map has none. -/
def entries (j : Nat) : List Nat := (s.pending j).getD []

/-- A submission goes on to `x`. -/
def setSubmission (requestID : Nat) (x : Submission) : State :=
  { s with submissions := Function.update s.submissions requestID x }

/-- Worker `j` goes on to `w`. -/
def setWorker (j : Nat) (w : Worker) : State :=
  { s with workers := Function.update s.workers j w }

/-- `delete(shard.pending, requestID)`. -/
def remove (requestID : Nat) : State :=
  { s with
    pending := Function.update s.pending (pendingShardIndex requestID)
      ((s.pending (pendingShardIndex requestID)).map fun l => l.erase requestID) }

/-- A waiter gets a result. -/
def send (requestID : Nat) : State :=
  { s with results := Function.update s.results requestID (s.results requestID + 1) }

/-- `shard.pending[requestID] = …`. -/
def register (requestID : Nat) : State :=
  match s.pending (pendingShardIndex requestID) with
  | none => { s with panicked := true }
  | some l =>
    { s with
      pending := Function.update s.pending (pendingShardIndex requestID) (some (requestID :: l))
      registered := Function.update s.registered requestID true }

end State

/-- What the steps of the connection have to wait for, and what `TryDequeue` finds. -/
def allowed (pkg : Package) (s : State) : Sessions.Act Nat → Bool
  | .submit _ => false
  | .close ok =>
    match pkg, s.base.closer with
    | .client, .discarding => s.swept && s.retired && decide (ok = s.ready)
    | .client1of1, .waiting => s.swept && s.retired
    | .client1of1, .discarding => decide (ok = s.ready)
    | _, _ => true
  | .write g ok =>
    match (s.base.sessions g).writer with
    | .dequeue | .next => decide (ok = s.ready)
    | _ => true
  | _ => true

/-- A step of a submission. -/
def enqueueStep (s : State) (requestID : Nat) (room : Bool) : Option State :=
  let j := pendingShardIndex requestID
  match s.submissions requestID with
  | .entering waits =>
    match s.mu j with
    | none =>
      some { s.setSubmission requestID (.checking waits) with
        mu := Function.update s.mu j (some requestID) }
    | some _ => none
  | .checking waits =>
    if s.base.canceled then some (s.setSubmission requestID (.leaving false))
    else if waits then some ((s.register requestID).setSubmission requestID (.registered true))
    else some (s.setSubmission requestID (.registered false))
  | .registered _ =>
    if room then
      some { s.setSubmission requestID (.publishing s.base.enqueued.length) with
        base := { s.base with enqueued := s.base.enqueued ++ [requestID] }
        unpublished := s.base.enqueued.length :: s.unpublished }
    else
      some { (s.remove requestID).setSubmission requestID (.leaving false) with
        registered := Function.update s.registered requestID false }
  | .publishing position =>
    some { s.setSubmission requestID (.leaving true) with
      unpublished := s.unpublished.filter fun p => p ≠ position }
  | .leaving ok =>
    some { s.setSubmission requestID (.returned ok) with mu := Function.update s.mu j none }
  | .idle | .returned _ => none

/-- `completeInShard` in the worker of shard `j`. -/
def completeStep (s : State) (j : Nat) : Option State :=
  match s.workers j with
  | .completing requestID =>
    match s.mu j with
    | none =>
      if requestID ∈ s.entries j then some ((s.remove requestID).setWorker j (.sending requestID))
      else some (s.setWorker j .waiting)
    | some _ => none
  | .sending requestID => some ((s.send requestID).setWorker j .waiting)
  | .waiting | .exited => none

/-- `completeInShard` by the waiter itself, from `expireResponses`, `abort` or `await`. -/
def giveUpStep (s : State) (requestID : Nat) : Option State :=
  match s.submissions requestID, s.mu (pendingShardIndex requestID) with
  | .returned true, none =>
    if requestID ∈ s.entries (pendingShardIndex requestID) then
      some { s.remove requestID with own := Function.update s.own requestID true }
    else some s
  | _, _ => none

/-- `Close` has come to the loop over the shards. -/
def sweeping (pkg : Package) (s : State) : Bool :=
  match pkg with
  | .client => decide (s.base.closer = .discarding)
  | .client1of1 => decide (s.base.closer = .waiting)

/-- The loop of `failPending`, or that of `Close`. -/
def sweepStep (s : State) : Option State :=
  match s.sweep with
  | .shard j =>
    if j < pendingShardCount then
      match s.mu j with
      | none =>
        some { s with
          pending := Function.update s.pending j none
          sweep := .sending j (s.entries j) }
      | some _ => none
    else none
  | .sending j (requestID :: todo) => some { s.send requestID with sweep := .sending j todo }
  | .sending j [] => some { s with sweep := .shard (j + 1) }

/-- One step of the replica. -/
def step (pkg : Package) (s : State) : Act → Option State
  | .session a =>
    if allowed pkg s a then (Sessions.step pkg s.base a).map fun base => { s with base } else none
  | .submit requestID waits =>
    match s.submissions requestID with
    | .idle => some (s.setSubmission requestID (.entering waits))
    | _ => none
  | .refuse requestID =>
    match s.submissions requestID with
    | .entering _ => some (s.setSubmission requestID (.returned false))
    | _ => none
  | .enqueue requestID room => enqueueStep s requestID room
  | .respond requestID =>
    match s.workers (pendingShardIndex requestID) with
    | .waiting => some (s.setWorker (pendingShardIndex requestID) (.completing requestID))
    | _ => none
  | .complete j => completeStep s j
  | .retire j =>
    match s.workers j with
    | .waiting => if s.base.canceled then some (s.setWorker j .exited) else none
    | _ => none
  | .giveUp requestID => giveUpStep s requestID
  | .deliver requestID =>
    if s.own requestID then
      some { s.send requestID with own := Function.update s.own requestID false }
    else none
  | .sweep => if sweeping pkg s then sweepStep s else none

/-! ## What a step can do -/

variable {pkg : Package} {s s' : State}

/-- All that a step can do. -/
inductive Step (pkg : Package) (s : State) : State → Prop
  | session (a : Sessions.Act Nat) (base : Sessions.State Nat) (ha : allowed pkg s a = true)
      (hs : Sessions.step pkg s.base a = some base) : Step pkg s { s with base }
  | begun (r : Nat) (waits : Bool) (hr : s.submissions r = .idle) :
      Step pkg s (s.setSubmission r (.entering waits))
  | refused (r : Nat) (waits : Bool) (hr : s.submissions r = .entering waits) :
      Step pkg s (s.setSubmission r (.returned false))
  | locked (r : Nat) (waits : Bool) (hr : s.submissions r = .entering waits)
      (hmu : s.mu (pendingShardIndex r) = none) :
      Step pkg s { s.setSubmission r (.checking waits) with
        mu := Function.update s.mu (pendingShardIndex r) (some r) }
  | turnedAway (r : Nat) (waits : Bool) (hr : s.submissions r = .checking waits)
      (hc : s.base.canceled = true) : Step pkg s (s.setSubmission r (.leaving false))
  | registered (r : Nat) (l : List Nat) (hr : s.submissions r = .checking true)
      (hc : s.base.canceled = false) (hp : s.pending (pendingShardIndex r) = some l) :
      Step pkg s { s.setSubmission r (.registered true) with
        pending := Function.update s.pending (pendingShardIndex r) (some (r :: l))
        registered := Function.update s.registered r true }
  | panicked (r : Nat) (hr : s.submissions r = .checking true) (hc : s.base.canceled = false)
      (hp : s.pending (pendingShardIndex r) = none) :
      Step pkg s { s.setSubmission r (.registered true) with panicked := true }
  | passed (r : Nat) (hr : s.submissions r = .checking false) (hc : s.base.canceled = false) :
      Step pkg s (s.setSubmission r (.registered false))
  | claimed (r : Nat) (waits : Bool) (hr : s.submissions r = .registered waits) :
      Step pkg s { s.setSubmission r (.publishing s.base.enqueued.length) with
        base := { s.base with enqueued := s.base.enqueued ++ [r] }
        unpublished := s.base.enqueued.length :: s.unpublished }
  | full (r : Nat) (waits : Bool) (hr : s.submissions r = .registered waits) :
      Step pkg s { (s.remove r).setSubmission r (.leaving false) with
        registered := Function.update s.registered r false }
  | published (r position : Nat) (hr : s.submissions r = .publishing position) :
      Step pkg s { s.setSubmission r (.leaving true) with
        unpublished := s.unpublished.filter fun p => p ≠ position }
  | unlocked (r : Nat) (ok : Bool) (hr : s.submissions r = .leaving ok) :
      Step pkg s { s.setSubmission r (.returned ok) with
        mu := Function.update s.mu (pendingShardIndex r) none }
  | responded (r : Nat) (hw : s.workers (pendingShardIndex r) = .waiting) :
      Step pkg s (s.setWorker (pendingShardIndex r) (.completing r))
  | completed (j r : Nat) (hw : s.workers j = .completing r) (hmu : s.mu j = none)
      (hr : r ∈ s.entries j) : Step pkg s ((s.remove r).setWorker j (.sending r))
  | missed (j r : Nat) (hw : s.workers j = .completing r) : Step pkg s (s.setWorker j .waiting)
  | answered (j r : Nat) (hw : s.workers j = .sending r) :
      Step pkg s ((s.send r).setWorker j .waiting)
  | retired (j : Nat) (hw : s.workers j = .waiting) : Step pkg s (s.setWorker j .exited)
  | gaveUp (r : Nat) (hs : s.submissions r = .returned true)
      (hmu : s.mu (pendingShardIndex r) = none) (hr : r ∈ s.entries (pendingShardIndex r)) :
      Step pkg s { s.remove r with own := Function.update s.own r true }
  | late : Step pkg s s
  | delivered (r : Nat) (ho : s.own r = true) :
      Step pkg s { s.send r with own := Function.update s.own r false }
  | took (j : Nat) (ht : sweeping pkg s = true) (hj : s.sweep = .shard j)
      (hlt : j < pendingShardCount) (hmu : s.mu j = none) :
      Step pkg s { s with
        pending := Function.update s.pending j none
        sweep := .sending j (s.entries j) }
  | failed (j r : Nat) (todo : List Nat) (hj : s.sweep = .sending j (r :: todo)) :
      Step pkg s { s.send r with sweep := .sending j todo }
  | next (j : Nat) (hj : s.sweep = .sending j []) : Step pkg s { s with sweep := .shard (j + 1) }

theorem enqueueStep_cases {r : Nat} {room : Bool} (hs : enqueueStep s r room = some s') :
    Step pkg s s' := by
  unfold enqueueStep at hs
  dsimp only at hs
  split at hs
  case h_1 waits hr =>
    split at hs
    · rename_i hmu
      cases hs
      exact .locked r waits hr hmu
    · cases hs
  case h_2 waits hr =>
    split_ifs at hs with hc hw
    · cases hs
      exact .turnedAway r waits hr hc
    · subst hw
      cases hs
      have hc' : s.base.canceled = false := Bool.not_eq_true _ ▸ hc
      unfold State.register
      split
      · rename_i hp
        exact .panicked r hr hc' hp
      · rename_i l hp
        exact .registered r l hr hc' hp
    · cases hs
      exact .passed r ((Bool.not_eq_true waits ▸ hw : waits = false) ▸ hr) (Bool.not_eq_true _ ▸ hc)
  case h_3 waits hr =>
    split_ifs at hs
    · cases hs
      exact .claimed r waits hr
    · cases hs
      exact .full r waits hr
  case h_4 position hr =>
    cases hs
    exact .published r position hr
  case h_5 ok hr =>
    cases hs
    exact .unlocked r ok hr
  case h_6 => cases hs
  case h_7 => cases hs

theorem completeStep_cases {j : Nat} (hs : completeStep s j = some s') : Step pkg s s' := by
  unfold completeStep at hs
  split at hs
  case h_1 r hw =>
    split at hs
    · rename_i hmu
      split_ifs at hs with hr
      · cases hs
        exact .completed j r hw hmu hr
      · cases hs
        exact .missed j r hw
    · cases hs
  case h_2 r hw =>
    cases hs
    exact .answered j r hw
  case h_3 => cases hs
  case h_4 => cases hs

theorem sweepStep_cases (ht : sweeping pkg s = true) (hs : sweepStep s = some s') :
    Step pkg s s' := by
  unfold sweepStep at hs
  split at hs
  case h_1 j hj =>
    split_ifs at hs with hlt
    split at hs
    · rename_i hmu
      cases hs
      exact .took j ht hj hlt hmu
    · cases hs
  case h_2 j r todo hj =>
    cases hs
    exact .failed j r todo hj
  case h_3 j hj =>
    cases hs
    exact .next j hj

/-- **What a step does.** -/
theorem step_cases {a : Act} (hs : step pkg s a = some s') : Step pkg s s' := by
  cases a with
  | session a =>
    simp only [step] at hs
    split_ifs at hs with ha
    obtain ⟨base, hbase, rfl⟩ := Option.map_eq_some_iff.mp hs
    exact .session a base ha hbase
  | submit r waits =>
    simp only [step] at hs
    split at hs
    · cases hs
      exact .begun r waits ‹_›
    · cases hs
  | refuse r =>
    simp only [step] at hs
    split at hs
    · rename_i waits hr
      cases hs
      exact .refused r waits hr
    · cases hs
  | enqueue r room => exact enqueueStep_cases hs
  | respond r =>
    simp only [step] at hs
    split at hs
    · cases hs
      exact .responded r ‹_›
    · cases hs
  | complete j => exact completeStep_cases hs
  | retire j =>
    simp only [step] at hs
    split at hs
    · split_ifs at hs
      cases hs
      exact .retired j ‹_›
    · cases hs
  | giveUp r =>
    simp only [step, giveUpStep] at hs
    split at hs
    · rename_i hr hmu
      split_ifs at hs with hmem
      · cases hs
        exact .gaveUp r hr hmu hmem
      · cases hs
        exact .late
    · cases hs
  | deliver r =>
    simp only [step] at hs
    split_ifs at hs with ho
    cases hs
    exact .delivered r ho
  | sweep =>
    simp only [step] at hs
    split_ifs at hs with ht
    exact sweepStep_cases ht hs

/-! ## The connection -/

/-- What a step of the connection does to the queue and to `Close`. -/
inductive Moved (pkg : Package) (b : Sessions.State Nat) (a : Sessions.Act Nat)
    (b' : Sessions.State Nat) : Prop
  | worked (hcloser : b'.closer = b.closer) (henq : b'.enqueued = b.enqueued)
      (hcanceled : b'.canceled = b.canceled)
      (htaken : b'.taken = b.taken ∨ b.taken < b.enqueued.length)
  | canceled (hcloser : b.closer = .idle) (hb : b' = { b with canceled := true, closer := .mark })
  | marking (hcloser : b.closer = .mark ∨ (∃ g, b.closer = .terminating g) ∨ ∃ g, b.closer = .joining g)
      (hcloser' : (∃ g, b'.closer = .terminating g) ∨ (∃ g, b'.closer = .joining g) ∨
        b'.closer = .waiting)
      (henq : b'.enqueued = b.enqueued) (hcanceled : b'.canceled = b.canceled)
      (htaken : b'.taken = b.taken)
  | joined (ok : Bool) (ha : a = .close ok) (hcloser : b.closer = .waiting)
      (hb : b' = { b with closer := .discarding })
  | discarded (hcloser : b.closer = .discarding) (hcloser' : b'.closer = .discarding)
      (henq : b'.enqueued = b.enqueued) (hcanceled : b'.canceled = b.canceled)
  | finished (ok : Bool) (ha : a = .close ok) (hcloser : b.closer = .discarding)
      (hq : ¬(ok = true ∧ b.taken < b.enqueued.length)) (hb : b' = { b with closer := .closed })

theorem moved_of_write {b b' : Sessions.State Nat} {a : Sessions.Act Nat} {g : Nat} {ok : Bool}
    (hs : Sessions.writerStep pkg b g ok = some b') : Moved pkg b a b' := by
  have dequeue : ∀ {w : Sessions.Writer}, Moved pkg b a (Sessions.tryDequeue b g ok w) := by
    intro w
    unfold Sessions.tryDequeue
    split_ifs with h
    · exact .worked rfl rfl rfl (Or.inr h.2)
    · exact .worked rfl rfl rfl (Or.inl rfl)
  unfold Sessions.writerStep at hs
  dsimp only at hs
  split at hs
  · cases hs
  · cases hs
    exact .worked rfl rfl rfl (Or.inl rfl)
  · cases hs
    exact dequeue
  · split_ifs at hs <;> cases hs <;> exact .worked rfl rfl rfl (Or.inl rfl)
  · split_ifs at hs <;> cases hs <;> exact .worked rfl rfl rfl (Or.inl rfl)
  · split at hs
    · cases hs
    · cases hs
      exact .worked rfl rfl rfl (Or.inl rfl)
  · cases hs
    exact dequeue
  · cases hs
    exact .worked rfl rfl rfl (Or.inl rfl)
  · cases hs
    exact .worked rfl rfl rfl (Or.inl rfl)
  · cases hs

theorem moved_of_manage {b b' : Sessions.State Nat} {a : Sessions.Act Nat} {ok : Bool}
    (hs : Sessions.step pkg b (.manage ok) = some b') : Moved pkg b a b' := by
  have pause : ∀ {b'}, Sessions.managePause b ok = some b' → Moved pkg b a b' := by
    intro b' hs
    unfold Sessions.managePause at hs
    split at hs
    · cases hs
      exact .worked rfl rfl rfl (Or.inl rfl)
    · split_ifs at hs <;> cases hs <;> exact .worked rfl rfl rfl (Or.inl rfl)
    · cases hs
  -- no other step of the manager touches the queue or `Close`
  cases pkg with
  | client =>
    simp only [Sessions.step, Sessions.manage] at hs
    split at hs
    case h_9 => exact pause hs
    case h_10 => exact pause hs
    all_goals
      try split_ifs at hs
      all_goals cases hs
      all_goals exact .worked rfl rfl rfl (Or.inl rfl)
  | client1of1 =>
    simp only [Sessions.step, Sessions.manageConnection] at hs
    split at hs
    case h_9 => exact pause hs
    case h_10 => exact pause hs
    all_goals
      try split_ifs at hs
      all_goals cases hs
      all_goals exact .worked rfl rfl rfl (Or.inl rfl)

theorem moved_of_close {b b' : Sessions.State Nat} {ok : Bool}
    (hs : Sessions.close pkg b ok = some b') : Moved pkg b (.close ok) b' := by
  unfold Sessions.close at hs
  split at hs
  case h_1 hc => cases hs; exact .canceled hc rfl
  case h_2 hc =>
    cases hs
    refine .marking (Or.inl hc) ?_ rfl rfl rfl
    dsimp only
    split
    · exact Or.inl ⟨_, rfl⟩
    · exact Or.inr (Or.inr rfl)
  case h_3 g hc =>
    cases hs
    exact .marking (Or.inr (Or.inl ⟨g, hc⟩)) (Or.inr (Or.inl ⟨g, rfl⟩)) rfl rfl rfl
  case h_4 g hc =>
    split_ifs at hs
    cases hs
    exact .marking (Or.inr (Or.inr ⟨g, hc⟩)) (Or.inr (Or.inr rfl)) rfl rfl rfl
  case h_5 hc =>
    split_ifs at hs
    cases hs
    exact .joined ok rfl hc rfl
  case h_6 hc =>
    split_ifs at hs with hq
    · cases hs
      exact .discarded hc hc rfl rfl
    · cases hs
      exact .finished ok rfl hc hq rfl
  case h_7 => cases hs

/-- **What a step of the connection does**, if it is not a submission. -/
theorem moved {b b' : Sessions.State Nat} {a : Sessions.Act Nat} (ha : allowed pkg s a = true)
    (hs : Sessions.step pkg b a = some b') : Moved pkg b a b' := by
  cases a with
  | submit r => cases ha
  | manage ok => exact moved_of_manage hs
  | close ok => exact moved_of_close hs
  | write g ok => exact moved_of_write hs
  | read g isFailed =>
    simp only [Sessions.step, Sessions.readerStep] at hs
    split at hs
    · cases hs
      exact .worked rfl rfl rfl (Or.inl rfl)
    · cases hs
      exact .worked rfl rfl rfl (Or.inl rfl)
    · cases hs
    · cases hs

theorem Moved.canceled_mono {b b' : Sessions.State Nat} {a : Sessions.Act Nat}
    (h : Moved pkg b a b') (hc : b.canceled = true) : b'.canceled = true := by
  cases h with
  | worked hcloser henq hcanceled htaken => rw [hcanceled, hc]
  | canceled hcloser hb => rw [hb]
  | marking hcloser hcloser' henq hcanceled htaken => rw [hcanceled, hc]
  | joined ok ha hcloser hb => rw [hb]; exact hc
  | discarded hcloser hcloser' henq hcanceled => rw [hcanceled, hc]
  | finished ok ha hcloser hq hb => rw [hb]; exact hc

theorem Moved.enqueued_eq {b b' : Sessions.State Nat} {a : Sessions.Act Nat}
    (h : Moved pkg b a b') : b'.enqueued = b.enqueued := by
  cases h with
  | worked hcloser henq hcanceled htaken => exact henq
  | canceled hcloser hb => rw [hb]
  | marking hcloser hcloser' henq hcanceled htaken => exact henq
  | joined ok ha hcloser hb => rw [hb]
  | discarded hcloser hcloser' henq hcanceled => exact henq
  | finished ok ha hcloser hq hb => rw [hb]

/-- `Close` cancels the context before everything else. -/
theorem Moved.closing {b b' : Sessions.State Nat} {a : Sessions.Act Nat} (h : Moved pkg b a b')
    (hb : b.closer ≠ .idle → b.canceled = true) (hb' : b'.closer ≠ .idle) :
    b'.canceled = true := by
  have before : b.closer ≠ .idle → b'.canceled = true := fun hne => h.canceled_mono (hb hne)
  cases h with
  | worked hcloser henq hcanceled htaken => exact before (hcloser ▸ hb')
  | canceled hcloser hb => rw [hb]
  | marking hcloser hcloser' henq hcanceled htaken =>
    refine before ?_
    rcases hcloser with h | ⟨g, h⟩ | ⟨g, h⟩ <;> rw [h] <;> nofun
  | joined ok ha hcloser hb | discarded hcloser hcloser' henq hcanceled
  | finished ok ha hcloser hq hb => exact before (by rw [hcloser]; nofun)

/-! ## The locks and the nil maps -/

/-- The submission holds the lock of its shard. -/
def Submission.inside : Submission → Bool
  | .checking _ | .registered _ | .publishing _ | .leaving _ => true
  | _ => false

/-- It has passed the check of the context and holds the lock. -/
def Submission.through : Submission → Bool
  | .registered _ | .publishing _ | .leaving true => true
  | _ => false

theorem Submission.inside_of_through {x : Submission} (h : x.through = true) : x.inside = true := by
  cases x <;> first | rfl | cases h

/-- The first shard that the loop has not reached. -/
def Sweep.next : Sweep → Nat
  | .shard j => j
  | .sending j _ => j + 1

/-- The locks protect the maps, and `Close` has made the first of them nil. -/
structure Locked (s : State) : Prop where
  owned : Mutex.Sharded pendingShardIndex s.mu Submission.inside s.submissions
  canceled : s.base.closer ≠ .idle → s.base.canceled = true
  /-- Nobody is past the check of the context in a shard whose map is nil. -/
  nil : ∀ {j}, s.pending j = none → s.base.canceled = true ∧
    ∀ r, pendingShardIndex r = j → (s.submissions r).through = false
  panicked : s.panicked = false
  progress : ∀ {j}, j < s.sweep.next → s.pending j = none

theorem locked_init : Locked .init where
  owned _ _ := ⟨nofun, fun h => nomatch h.2⟩
  canceled h := absurd rfl h
  nil := nofun
  panicked := rfl
  progress h := absurd h (Nat.not_lt_zero _)

theorem Locked.mu_of_inside (h : Locked s) {r : Nat} (hr : (s.submissions r).inside = true) :
    s.mu (pendingShardIndex r) = some r :=
  (h.owned _ r).mpr ⟨rfl, hr⟩

theorem through_update {r : Nat} {x : Submission} {s₁ : State}
    (hs₁ : s₁.submissions = Function.update s.submissions r x)
    (hx : x.through = true → (s.submissions r).through = true) {r' : Nat}
    (h : (s.submissions r').through = false) : (s₁.submissions r').through = false := by
  rw [hs₁]
  by_cases heq : r' = r
  · subst heq
    rw [Function.update_self]
    by_contra hne
    rw [hx (Bool.not_eq_false _ ▸ hne)] at h
    cases h
  · rw [Function.update_of_ne heq]
    exact h

/-- A submission moves on, inside or outside as before, past the check only if it was or if the
context has not ended. -/
theorem Locked.submission (h : Locked s) {r : Nat} {x : Submission} {s₁ : State}
    (hs₁ : s₁.submissions = Function.update s.submissions r x) (hmu : s₁.mu = s.mu)
    (hcloser : s₁.base.closer = s.base.closer) (hcanceled : s₁.base.canceled = s.base.canceled)
    (hsweep : s₁.sweep = s.sweep) (hpanicked : s₁.panicked = s.panicked)
    (hnil : ∀ j, s₁.pending j = none ↔ s.pending j = none)
    (hin : x.inside = (s.submissions r).inside)
    (hthrough : x.through = true → (s.submissions r).through = true ∨ s.base.canceled = false) :
    Locked s₁ where
  owned := by
    rw [hmu, hs₁]
    exact h.owned.move hin
  canceled hne := hcanceled ▸ h.canceled (hcloser ▸ hne)
  nil {j} hj := by
    obtain ⟨hc, hr⟩ := h.nil ((hnil j).mp hj)
    refine ⟨hcanceled ▸ hc, fun r' hr' => through_update hs₁ (fun hx => ?_) (hr r' hr')⟩
    exact (hthrough hx).resolve_right (by rw [hc]; nofun)
  panicked := hpanicked.trans h.panicked
  progress hj := (hnil _).mpr (h.progress (hsweep ▸ hj))

/-- Steps that touch neither the locks nor the submissions. -/
theorem Locked.quiet (h : Locked s) {s₁ : State} (hs₁ : s₁.submissions = s.submissions)
    (hmu : s₁.mu = s.mu) (hbase : s₁.base = s.base) (hpanicked : s₁.panicked = s.panicked)
    (hnext : s₁.sweep.next = s.sweep.next)
    (hnil : ∀ j, s₁.pending j = none ↔ s.pending j = none) : Locked s₁ where
  owned := by
    rw [hmu, hs₁]
    exact h.owned
  canceled := by rw [hbase]; exact h.canceled
  nil hj := by
    rw [hbase, hs₁]
    exact h.nil ((hnil _).mp hj)
  panicked := hpanicked.trans h.panicked
  progress hj := (hnil _).mpr (h.progress (hnext ▸ hj))

theorem remove_none (s : State) (r j : Nat) : (s.remove r).pending j = none ↔ s.pending j = none := by
  unfold State.remove
  by_cases hj : j = pendingShardIndex r
  · subst hj
    simp only [Function.update_self, Option.map_eq_none_iff]
  · simp only [Function.update_of_ne hj]

theorem Locked.after_step (h : Locked s) (hs : Step pkg s s') : Locked s' := by
  cases hs with
  | session a base ha hbase =>
    have hmoved := moved ha hbase
    exact {
      owned := h.owned
      canceled := hmoved.closing h.canceled
      nil := fun hj => ⟨hmoved.canceled_mono (h.nil hj).1, (h.nil hj).2⟩
      panicked := h.panicked
      progress := h.progress }
  | begun r waits hr | refused r waits hr =>
    exact h.submission rfl rfl rfl rfl rfl rfl (fun _ => Iff.rfl) (by rw [hr]; rfl) nofun
  | locked r waits hr hmu =>
    exact ⟨h.owned.lock hmu rfl, h.canceled, fun hj => ⟨(h.nil hj).1, fun r' hr' =>
      through_update (s := s) rfl (by nofun) ((h.nil hj).2 r' hr')⟩, h.panicked, h.progress⟩
  | turnedAway r waits hr hc =>
    exact h.submission rfl rfl rfl rfl rfl rfl (fun _ => Iff.rfl) (by rw [hr]; rfl) nofun
  | registered r l hr hc hp =>
    refine h.submission rfl rfl rfl rfl rfl rfl (fun j => ?_) (by rw [hr]; rfl)
      fun _ => Or.inr hc
    show Function.update s.pending (pendingShardIndex r) (some (r :: l)) j = none ↔ _
    by_cases hj : j = pendingShardIndex r
    · rw [hj, Function.update_self, hp]
      exact ⟨nofun, nofun⟩
    · rw [Function.update_of_ne hj]
  | panicked r hr hc hp =>
    have hcanceled := (h.nil hp).1
    rw [hc] at hcanceled
    cases hcanceled
  | passed r hr hc =>
    exact h.submission rfl rfl rfl rfl rfl rfl (fun _ => Iff.rfl) (by rw [hr]; rfl)
      fun _ => Or.inr hc
  | claimed r waits hr =>
    exact h.submission rfl rfl rfl rfl rfl rfl (fun _ => Iff.rfl) (by rw [hr]; rfl)
      fun _ => Or.inl (by rw [hr]; rfl)
  | full r waits hr =>
    exact h.submission rfl rfl rfl rfl rfl rfl (remove_none s r) (by rw [hr]; rfl) nofun
  | published r position hr =>
    exact h.submission rfl rfl rfl rfl rfl rfl (fun _ => Iff.rfl) (by rw [hr]; rfl)
      fun _ => Or.inl (by rw [hr]; rfl)
  | unlocked r ok hr =>
    exact ⟨h.owned.unlock (by rw [hr]; rfl) rfl, h.canceled, fun hj => ⟨(h.nil hj).1, fun r' hr' =>
      through_update (s := s) rfl (by nofun) ((h.nil hj).2 r' hr')⟩, h.panicked, h.progress⟩
  | responded r hw => exact h.quiet rfl rfl rfl rfl rfl fun _ => Iff.rfl
  | completed j r hw hmu hr => exact h.quiet rfl rfl rfl rfl rfl (remove_none s r)
  | missed j r hw | answered j r hw | retired j hw =>
    exact h.quiet rfl rfl rfl rfl rfl fun _ => Iff.rfl
  | gaveUp r hsub hmu hr => exact h.quiet rfl rfl rfl rfl rfl (remove_none s r)
  | late => exact h
  | delivered r ho => exact h.quiet rfl rfl rfl rfl rfl fun _ => Iff.rfl
  | took j ht hj hlt hmu =>
    have hcanceled : s.base.canceled = true := by
      refine h.canceled fun hidle => ?_
      unfold sweeping at ht
      split at ht
      · rw [of_decide_eq_true ht] at hidle
        cases hidle
      · rw [of_decide_eq_true ht] at hidle
        cases hidle
    have hfree := h.owned j
    rw [hmu] at hfree
    refine ⟨h.owned, h.canceled, fun {j'} hj' => ⟨hcanceled, fun r hr => ?_⟩, h.panicked,
      fun {j'} hj' => ?_⟩
    · by_cases heq : j' = j
      · -- the lock of the shard is free
        by_contra hne
        exact hfree.free ⟨hr.trans heq, Submission.inside_of_through (Bool.not_eq_false _ ▸ hne)⟩
      · have hold : Function.update s.pending j none j' = none := hj'
        rw [Function.update_of_ne heq] at hold
        exact (h.nil hold).2 r hr
    · show Function.update s.pending j none j' = none
      by_cases heq : j' = j
      · rw [heq, Function.update_self]
      · rw [Function.update_of_ne heq]
        refine h.progress ?_
        have hlt' : j' < j + 1 := hj'
        rw [hj]
        show j' < j
        omega
  | failed j r todo hj | next j hj =>
    exact h.quiet rfl rfl rfl rfl (by rw [hj]; rfl) fun _ => Iff.rfl

/-! ## The waiters -/

theorem pendingShardIndex_lt (r : Nat) : pendingShardIndex r < pendingShardCount :=
  Nat.lt_succ_of_le Nat.and_le_right

/-- The submission was accepted, or it will be if the queue has room. -/
def Submission.accepted : Submission → Bool
  | .registered true | .publishing _ | .leaving true | .returned true => true
  | _ => false

/-- The waiters that `Close` still has to answer. -/
def Sweep.todo : Sweep → List Nat
  | .shard _ => []
  | .sending _ todo => todo

/-- The request that a worker completes. -/
def Worker.request : Worker → Option Nat
  | .completing r | .sending r => some r
  | _ => none

/-- What a worker adds to the results on their way. -/
def Worker.carries (w : Worker) (r : Nat) : Nat := if w = .sending r then 1 else 0

/-- What there is of one waiter. -/
@[ext]
structure Waiter where
  submission : Submission
  registered : Bool
  /-- How often it is in the map of its shard. -/
  entries : Nat
  /-- The results on their way: the entry is removed, and the result is not sent. -/
  onTheWay : Nat
  results : Nat

/-- What the state has of the waiter of request `r`. -/
def State.waiter (s : State) (r : Nat) : Waiter where
  submission := s.submissions r
  registered := s.registered r
  entries := (s.entries (pendingShardIndex r)).count r
  onTheWay := (s.workers (pendingShardIndex r)).carries r + (s.own r).toNat + s.sweep.todo.count r
  results := s.results r

/-- The waiter is in one place. -/
structure Waiter.Ok (w : Waiter) : Prop where
  one : w.entries + w.onTheWay + w.results = if w.registered = true then 1 else 0
  accepted : w.registered = true → w.submission.accepted = true
  held : w.submission = .registered true → 0 < w.entries
  unheld : w.submission = .registered false → w.registered = false

/-- Every waiter is in one place. -/
def Waiters (s : State) : Prop := ∀ r, (s.waiter r).Ok

theorem waiters_init : Waiters .init := fun _ => ⟨rfl, nofun, nofun, nofun⟩

/-- An entry is in the map of its shard, and a worker completes the requests of its shard. -/
structure Placed (s : State) : Prop where
  entry : ∀ {j r}, r ∈ s.entries j → pendingShardIndex r = j
  worker : ∀ {j r}, (s.workers j).request = some r → pendingShardIndex r = j

theorem placed_init : Placed .init where
  entry h := nomatch h
  worker h := nomatch h

/-! ### Entries -/

theorem entries_update {s₁ : State} {j : Nat} {o : Option (List Nat)}
    (h : s₁.pending = Function.update s.pending j o) (j' : Nat) :
    s₁.entries j' = if j' = j then o.getD [] else s.entries j' := by
  unfold State.entries
  rw [h]
  by_cases hj : j' = j
  · rw [if_pos hj, hj, Function.update_self]
  · rw [if_neg hj, Function.update_of_ne hj]

theorem entries_remove (s : State) (r j : Nat) :
    (s.remove r).entries j =
      if j = pendingShardIndex r then (s.entries j).erase r else s.entries j := by
  rw [entries_update (s := s) rfl]
  by_cases hj : j = pendingShardIndex r
  · rw [if_pos hj, if_pos hj, hj]
    unfold State.entries
    cases s.pending (pendingShardIndex r) with
    | none => rfl
    | some l => rfl
  · rw [if_neg hj, if_neg hj]

theorem count_remove_self (s : State) (r : Nat) :
    ((s.remove r).entries (pendingShardIndex r)).count r =
      (s.entries (pendingShardIndex r)).count r - 1 := by
  rw [entries_remove, if_pos rfl, List.count_erase_self]

theorem Placed.remove (h : Placed s) {r r' j : Nat} (hr' : r' ∈ (s.remove r).entries j) :
    pendingShardIndex r' = j := by
  rw [entries_remove] at hr'
  split_ifs at hr'
  · exact h.entry (List.mem_of_mem_erase hr')
  · exact h.entry hr'

theorem Placed.setWorker (h : Placed s) {j : Nat} {w : Worker}
    (hw : ∀ r, w.request = some r → pendingShardIndex r = j) {j' r : Nat}
    (hr : (Function.update s.workers j w j').request = some r) : pendingShardIndex r = j' := by
  by_cases heq : j' = j
  · subst heq
    rw [Function.update_self] at hr
    exact hw r hr
  · rw [Function.update_of_ne heq] at hr
    exact h.worker hr

theorem Placed.after_step (h : Placed s) (hs : Step pkg s s') : Placed s' := by
  cases hs with
  | registered r l hr hc hp =>
    refine ⟨fun {j r'} hr' => ?_, h.worker⟩
    rw [entries_update (s := s) rfl] at hr'
    split_ifs at hr' with hj
    · rcases List.mem_cons.mp hr' with rfl | hr'
      · exact hj.symm
      · refine h.entry ?_
        rw [hj, State.entries, hp]
        exact hr'
    · exact h.entry hr'
  | full r waits hr => exact ⟨h.remove, h.worker⟩
  | responded r hw =>
    refine ⟨h.entry, h.setWorker fun r' hr' => ?_⟩
    cases hr'
    rfl
  | completed j r hw hmu hr =>
    refine ⟨h.remove, h.setWorker fun r' hr' => h.worker ?_⟩
    rw [hw]
    exact hr'
  | missed j r hw | answered j r hw | retired j hw => exact ⟨h.entry, h.setWorker (by nofun)⟩
  | gaveUp r hsub hmu hr => exact ⟨h.remove, h.worker⟩
  | took j ht hj hlt hmu =>
    refine ⟨fun {j' r} hr => ?_, h.worker⟩
    rw [entries_update (s := s) rfl] at hr
    split_ifs at hr
    · cases hr
    · exact h.entry hr
  | _ => exact ⟨h.entry, h.worker⟩

/-! ### One waiter moves -/

theorem Worker.carries_of_ne {w : Worker} {r : Nat} (h : w ≠ .sending r) : w.carries r = 0 :=
  if_neg h

section Others

variable {r r' : Nat}

theorem waiter_setSubmission (x : Submission) (h : r' ≠ r) :
    (s.setSubmission r x).waiter r' = s.waiter r' :=
  Waiter.ext (Function.update_of_ne h ..) rfl rfl rfl rfl

theorem count_remove (h : r' ≠ r) (j : Nat) :
    ((s.remove r).entries j).count r' = (s.entries j).count r' := by
  rw [entries_remove]
  split_ifs
  · exact List.count_erase_of_ne h
  · rfl

theorem waiter_remove (h : r' ≠ r) : (s.remove r).waiter r' = s.waiter r' :=
  Waiter.ext rfl rfl (count_remove h _) rfl rfl

theorem waiter_send (h : r' ≠ r) : (s.send r).waiter r' = s.waiter r' :=
  Waiter.ext rfl rfl rfl rfl (Function.update_of_ne h ..)

theorem waiter_own (own : Bool) (h : r' ≠ r) :
    ({ s with own := Function.update s.own r own } : State).waiter r' = s.waiter r' := by
  refine Waiter.ext rfl rfl rfl ?_ rfl
  show _ + (Function.update s.own r own r').toNat + _ = _
  rw [Function.update_of_ne h]
  rfl

/-- A worker that has nothing for the waiter before and after. -/
theorem waiter_setWorker {j : Nat} {w : Worker} (hold : s.workers j ≠ .sending r)
    (hnew : w ≠ .sending r) : (s.setWorker j w).waiter r = s.waiter r := by
  refine Waiter.ext rfl rfl rfl (congrArg (· + (s.own r).toNat + s.sweep.todo.count r) ?_) rfl
  show (Function.update s.workers j w (pendingShardIndex r)).carries r = _
  by_cases hj : pendingShardIndex r = j
  · rw [hj, Function.update_self, Worker.carries_of_ne hnew, Worker.carries_of_ne hold]
  · rw [Function.update_of_ne hj]

end Others

/-- **A step moves one waiter.** -/
theorem Waiters.update (h : Waiters s) {s₁ : State} (r : Nat) (w : Waiter)
    (hother : ∀ r', r' ≠ r → s₁.waiter r' = s.waiter r') (hself : s₁.waiter r = w) (hw : w.Ok) :
    Waiters s₁ := by
  intro r'
  by_cases heq : r' = r
  · rw [heq, hself]
    exact hw
  · rw [hother r' heq]
    exact h r'

/-- A submission moves on, with its waiter where it was. -/
theorem Waiters.submission (h : Waiters s) (r : Nat) {x : Submission} {s₁ : State}
    (hs₁ : s₁.waiter = (s.setSubmission r x).waiter)
    (hx : (s.submissions r).accepted = true → x.accepted = true) (hheld : x ≠ .registered true)
    (hunheld : x = .registered false → s.registered r = false) : Waiters s₁ := by
  refine h.update r { s.waiter r with submission := x }
    (fun r' hne => hs₁ ▸ waiter_setSubmission x hne) ?_ ⟨(h r).one, ?_, ?_, hunheld⟩
  · rw [hs₁]
    exact Waiter.ext (Function.update_self ..) rfl rfl rfl rfl
  · exact fun hr => hx ((h r).accepted hr)
  · exact fun heq => absurd heq hheld

theorem Waiters.setWorker (h : Waiters s) {j : Nat} {w : Worker}
    (hold : ∀ r, s.workers j ≠ .sending r) (hnew : ∀ r, w ≠ .sending r) :
    Waiters (s.setWorker j w) := fun r => by
  rw [waiter_setWorker (hold r) (hnew r)]
  exact h r

/-- A waiter moves from one place to another. -/
theorem Waiters.pass (h : Waiters s) {s₁ : State} (r : Nat)
    (hother : ∀ r', r' ≠ r → s₁.waiter r' = s.waiter r')
    (hsub : s₁.submissions r = s.submissions r) (hreg : s₁.registered r = s.registered r)
    (hsum : (s₁.waiter r).entries + (s₁.waiter r).onTheWay + (s₁.waiter r).results =
      (s.waiter r).entries + (s.waiter r).onTheWay + (s.waiter r).results)
    (hheld : s.submissions r = .registered true → 0 < (s₁.waiter r).entries) : Waiters s₁ := by
  have hsub' : (s₁.waiter r).submission = (s.waiter r).submission := hsub
  have hreg' : (s₁.waiter r).registered = (s.waiter r).registered := hreg
  refine h.update r _ hother rfl ⟨?_, ?_, ?_, ?_⟩
  · rw [hsum, hreg', (h r).one]
  · rw [hreg', hsub']
    exact (h r).accepted
  · rw [hsub']
    exact hheld
  · rw [hreg', hsub']
    exact (h r).unheld

/-- A waiter that is not registered is nowhere. -/
theorem Waiter.Ok.nowhere {w : Waiter} (h : w.Ok) (hr : w.registered = false) :
    w.entries = 0 ∧ w.onTheWay = 0 ∧ w.results = 0 := by
  have hone := h.one
  rw [hr, if_neg nofun] at hone
  omega

/-- A waiter whose entry is in the map has no result and none on its way. -/
theorem Waiter.Ok.alone {w : Waiter} (h : w.Ok) (hr : 0 < w.entries) :
    w.entries = 1 ∧ w.onTheWay = 0 ∧ w.results = 0 := by
  have hone := h.one
  split_ifs at hone <;> omega

theorem Waiters.unregistered (h : Waiters s) {r : Nat} (hr : (s.submissions r).accepted = false) :
    s.registered r = false := by
  by_contra hne
  have haccepted : (s.submissions r).accepted = true := (h r).accepted (Bool.not_eq_false _ ▸ hne)
  rw [haccepted] at hr
  cases hr

theorem Waiters.register_step (h : Waiters s) {r : Nat} {l : List Nat}
    (hr : s.submissions r = .checking true) (hp : s.pending (pendingShardIndex r) = some l) :
    Waiters { s.setSubmission r (.registered true) with
      pending := Function.update s.pending (pendingShardIndex r) (some (r :: l))
      registered := Function.update s.registered r true } := by
  obtain ⟨hcount, hway, hresults⟩ := (h r).nowhere (h.unregistered (by rw [hr]; rfl))
  have hl : s.entries (pendingShardIndex r) = l := by rw [State.entries, hp]; rfl
  refine h.update r ⟨.registered true, true, 1, 0, 0⟩ (fun r' hne => ?_) ?_
    ⟨rfl, fun _ => rfl, fun _ => Nat.one_pos, nofun⟩
  · refine Waiter.ext (Function.update_of_ne hne ..) (Function.update_of_ne hne ..) ?_ rfl rfl
    show (State.entries _ _).count r' = (s.entries _).count r'
    rw [entries_update (s := s) rfl]
    split_ifs with hj
    · rw [hj, hl, Option.getD_some, List.count_cons_of_ne (Ne.symm hne)]
    · rfl
  · refine Waiter.ext (Function.update_self ..) (Function.update_self ..) ?_ hway hresults
    show (State.entries _ _).count r = 1
    rw [entries_update (s := s) rfl, if_pos rfl, Option.getD_some, List.count_cons_self, ← hl]
    exact congrArg (· + 1) hcount

/-- A submission that finds the queue full takes its waiter back. -/
theorem Waiters.full_step (h : Waiters s) {r : Nat} {waits : Bool}
    (hr : s.submissions r = .registered waits) :
    Waiters { (s.remove r).setSubmission r (.leaving false) with
      registered := Function.update s.registered r false } := by
  -- the waiter was in the map, or there is none
  have hgone : (s.waiter r).entries - 1 = 0 ∧ (s.waiter r).onTheWay = 0 ∧
      (s.waiter r).results = 0 := by
    cases waits with
    | true =>
      have halone := (h r).alone ((h r).held hr)
      omega
    | false =>
      have hnowhere := (h r).nowhere ((h r).unheld hr)
      omega
  refine h.update r ⟨.leaving false, false, 0, 0, 0⟩ (fun r' hne => ?_) ?_ ⟨rfl, nofun, nofun, nofun⟩
  · exact Waiter.ext (Function.update_of_ne hne ..) (Function.update_of_ne hne ..) (count_remove hne _)
      rfl rfl
  · exact Waiter.ext (Function.update_self ..) (Function.update_self ..)
      ((count_remove_self s r).trans hgone.1) hgone.2.1 hgone.2.2

/-- The waiter of a submission that is inside is not in a shard whose lock is free. -/
theorem Locked.outside (h : Locked s) {j r : Nat} (hmu : s.mu j = none)
    (hr : s.submissions r = .registered true) : pendingShardIndex r ≠ j := by
  rintro rfl
  rw [h.mu_of_inside (by rw [hr]; rfl)] at hmu
  cases hmu

/-- The loop over the shards takes a map. -/
theorem Waiters.took_step (h : Waiters s) (hl : Locked s) (hp : Placed s) {j : Nat}
    (hj : s.sweep = .shard j) (hmu : s.mu j = none) :
    Waiters { s with
      pending := Function.update s.pending j none
      sweep := .sending j (s.entries j) } := by
  intro r
  have hone : (s.entries (pendingShardIndex r)).count r +
      ((s.workers (pendingShardIndex r)).carries r + (s.own r).toNat + s.sweep.todo.count r) +
      s.results r = if s.registered r = true then 1 else 0 := (h r).one
  rw [hj, Sweep.todo, List.count_nil] at hone
  refine ⟨?_, (h r).accepted, fun hr => ?_, (h r).unheld⟩
  · show (State.entries _ _).count r + ((s.workers (pendingShardIndex r)).carries r +
      (s.own r).toNat + (s.entries j).count r) + s.results r = if s.registered r = true then 1 else 0
    rw [entries_update (s := s) rfl]
    by_cases heq : pendingShardIndex r = j
    · rw [if_pos heq, ← heq, Option.getD_none, List.count_nil]
      omega
    · have hnot : (s.entries j).count r = 0 :=
        List.count_eq_zero_of_not_mem fun hmem => heq (hp.entry hmem)
      rw [if_neg heq, hnot]
      exact hone
  · show 0 < (State.entries _ _).count r
    rw [entries_update (s := s) rfl, if_neg (hl.outside hmu hr)]
    exact (h r).held hr

theorem Waiters.after_step (h : Waiters s) (hl : Locked s) (hp : Placed s) (hs : Step pkg s s') :
    Waiters s' := by
  cases hs with
  | session a base ha hbase => exact h
  | begun r waits hr | refused r waits hr | locked r waits hr hmu | turnedAway r waits hr hc =>
    exact h.submission r rfl (fun ha => by rw [hr] at ha; cases ha) nofun nofun
  | registered r l hr hc hp => exact h.register_step hr hp
  | panicked r hr hc hp =>
    have hcanceled := (hl.nil hp).1
    rw [hc] at hcanceled
    cases hcanceled
  | passed r hr hc =>
    exact h.submission r rfl (fun ha => by rw [hr] at ha; cases ha) nofun
      fun _ => h.unregistered (by rw [hr]; rfl)
  | claimed r waits hr => exact h.submission r rfl (fun _ => rfl) nofun nofun
  | full r waits hr => exact h.full_step hr
  | published r position hr => exact h.submission r rfl (fun _ => rfl) nofun nofun
  | unlocked r ok hr =>
    refine h.submission r rfl (fun ha => ?_) nofun nofun
    rw [hr] at ha
    cases ok with
    | true => rfl
    | false => cases ha
  | responded r hw | missed j r hw | retired j hw =>
    exact h.setWorker (by rw [hw]; nofun) (by nofun)
  | completed j r hw hmu hr =>
    obtain rfl : pendingShardIndex r = j := hp.worker (by rw [hw]; rfl)
    refine h.pass r (fun r' hne => ?_) rfl rfl ?_ fun hsub => absurd rfl (hl.outside hmu hsub)
    · refine (waiter_setWorker ?_ ?_).trans (waiter_remove hne)
      · show s.workers _ ≠ _
        rw [hw]
        nofun
      · rintro ⟨⟩
        exact hne rfl
    · have hpos := List.count_pos_iff.mpr hr
      have hcount := count_remove_self s r
      simp only [State.waiter, State.setWorker, Function.update_self, hw, Worker.carries]
      show ((s.remove r).entries _).count r + (1 + (s.own r).toNat + s.sweep.todo.count r) +
        s.results r = _
      simp only [reduceCtorEq, if_false]
      omega
  | answered j r hw =>
    obtain rfl : pendingShardIndex r = j := hp.worker (by rw [hw]; rfl)
    refine h.pass r (fun r' hne => ?_) rfl rfl ?_ (h r).held
    · refine (waiter_setWorker ?_ (by nofun)).trans (waiter_send hne)
      show s.workers _ ≠ _
      rw [hw]
      rintro ⟨⟩
      exact hne rfl
    · simp only [State.waiter, State.setWorker, State.send, State.entries, Function.update_self, hw,
        Worker.carries, reduceCtorEq, if_false, if_true]
      omega
  | gaveUp r hsub hmu hr =>
    refine h.pass r (fun r' hne => (waiter_own true hne).trans (waiter_remove hne)) rfl rfl ?_
      fun hsub' => ?_
    · obtain ⟨hcount, hway, -⟩ := (h r).alone (List.count_pos_iff.mpr hr)
      show ((s.remove r).entries _).count r + ((s.workers (pendingShardIndex r)).carries r +
        (Function.update s.own r true r).toNat + s.sweep.todo.count r) + s.results r = _
      rw [Function.update_self, Bool.toNat_true, count_remove_self]
      dsimp only [State.waiter] at hcount hway ⊢
      omega
    · rw [hsub] at hsub'
      cases hsub'
  | late => exact h
  | delivered r ho =>
    refine h.pass r (fun r' hne => (waiter_own false hne).trans (waiter_send hne)) rfl rfl ?_ (h r).held
    simp only [State.waiter, State.send, State.entries, Function.update_self, ho, Bool.toNat_false,
      Bool.toNat_true]
    omega
  | took j ht hj hlt hmu => exact h.took_step hl hp hj hmu
  | failed j r todo hj =>
    refine h.pass r (fun r' hne => ?_) rfl rfl ?_ (h r).held
    · refine Waiter.ext rfl rfl rfl ?_ (Function.update_of_ne hne ..)
      simp only [State.waiter, State.send, hj, Sweep.todo, List.count_cons_of_ne (Ne.symm hne)]
    · simp only [State.waiter, State.send, State.entries, Function.update_self, hj, Sweep.todo,
        List.count_cons_self]
      omega
  | next j hj =>
    intro r
    have hsame : ({ s with sweep := .shard (j + 1) } : State).waiter r = s.waiter r := by
      unfold State.waiter
      rw [hj]
      rfl
    exact hsame ▸ h r

/-! ## The queue and `Close` -/

/-- `Close` has left the loop over the shards behind and joined the workers. -/
def afterSweep (pkg : Package) : Sessions.Closer → Bool
  | .closed => true
  | .discarding => decide (pkg = .client1of1)
  | _ => false

/-- The queue, and what `Close` has done when it gets there. -/
structure Queue (pkg : Package) (s : State) : Prop where
  base : Sessions.Inv pkg s.base
  unpublished : ∀ {p}, p ∈ s.unpublished → ∃ r, s.submissions r = .publishing p
  done : afterSweep pkg s.base.closer = true → s.sweep = .shard pendingShardCount ∧
    ∀ j, j < pendingShardCount → s.workers j = .exited
  empty : s.base.closer = .closed → s.base.taken = s.base.enqueued.length

theorem queue_init (pkg : Package) : Queue pkg .init where
  base := Sessions.inv_init pkg
  unpublished := nofun
  done := nofun
  empty := nofun

/-- Nobody is past the check of the context when all maps are nil. -/
theorem Locked.none_through (h : Locked s) (hsweep : s.sweep = .shard pendingShardCount) (r : Nat) :
    (s.submissions r).through = false :=
  (h.nil (h.progress (by rw [hsweep]; exact pendingShardIndex_lt r))).2 r rfl

/-- A slot that is claimed stays so while another submission moves. -/
theorem Queue.publishing (h : Queue pkg s) {r : Nat} {x : Submission}
    (hr : ∀ p, s.submissions r ≠ .publishing p) {p : Nat} (hp : p ∈ s.unpublished) :
    ∃ r', Function.update s.submissions r x r' = .publishing p := by
  obtain ⟨r', hr'⟩ := h.unpublished hp
  have hne : r' ≠ r := by
    rintro rfl
    exact hr p hr'
  refine ⟨r', ?_⟩
  rw [Function.update_of_ne hne]
  exact hr'

/-- A submission moves on outside of `TryEnqueue`. -/
theorem Queue.submission (h : Queue pkg s) {r : Nat} {x : Submission} {s₁ : State}
    (hr : ∀ p, s.submissions r ≠ .publishing p)
    (hs₁ : s₁.submissions = Function.update s.submissions r x) (hbase : s₁.base = s.base)
    (hunpublished : s₁.unpublished = s.unpublished) (hsweep : s₁.sweep = s.sweep)
    (hworkers : s₁.workers = s.workers) : Queue pkg s₁ where
  base := hbase ▸ h.base
  unpublished hp := by
    rw [hs₁]
    exact h.publishing hr (hunpublished ▸ hp)
  done := by
    rw [hbase, hsweep, hworkers]
    exact h.done
  empty := by
    rw [hbase]
    exact h.empty

/-- A worker that has not returned moves on. -/
theorem Queue.worker (h : Queue pkg s) {j : Nat} {w : Worker} {s₁ : State}
    (hw : s.workers j ≠ .exited) (hs₁ : s₁.workers = Function.update s.workers j w)
    (hbase : s₁.base = s.base) (hunpublished : s₁.unpublished = s.unpublished)
    (hsweep : s₁.sweep = s.sweep) (hsubmissions : s₁.submissions = s.submissions) :
    Queue pkg s₁ where
  base := hbase ▸ h.base
  unpublished hp := by
    rw [hsubmissions]
    exact h.unpublished (hunpublished ▸ hp)
  done hd := by
    rw [hbase] at hd
    obtain ⟨hdone, hexited⟩ := h.done hd
    refine ⟨hsweep.trans hdone, fun j' hj' => ?_⟩
    have hne : j' ≠ j := by
      rintro rfl
      exact hw (hexited j' hj')
    rw [hs₁, Function.update_of_ne hne]
    exact hexited j' hj'
  empty := by
    rw [hbase]
    exact h.empty

theorem Queue.sweep (h : Queue pkg s) {s₁ : State} (hsweep : s.sweep ≠ .shard pendingShardCount)
    (hbase : s₁.base = s.base) (hunpublished : s₁.unpublished = s.unpublished)
    (hsubmissions : s₁.submissions = s.submissions) : Queue pkg s₁ where
  base := hbase ▸ h.base
  unpublished hp := by
    rw [hsubmissions]
    exact h.unpublished (hunpublished ▸ hp)
  done hd := absurd (h.done (hbase ▸ hd)).1 hsweep
  empty := by
    rw [hbase]
    exact h.empty

theorem retired_iff : s.retired = true ↔ ∀ j, j < pendingShardCount → s.workers j = .exited := by
  unfold State.retired
  simp only [List.all_eq_true, List.mem_range, decide_eq_true_eq]

/-- What `Close` waits for before it leaves the loop over the shards behind. -/
theorem allowed_leave {ok : Bool} (ha : allowed pkg s (.close ok) = true)
    (hc : pkg = .client ∧ s.base.closer = .discarding ∨
      pkg = .client1of1 ∧ s.base.closer = .waiting) :
    s.sweep = .shard pendingShardCount ∧ ∀ j, j < pendingShardCount → s.workers j = .exited := by
  rcases hc with ⟨rfl, hc⟩ | ⟨rfl, hc⟩
  · simp only [allowed, hc, Bool.and_eq_true, State.swept, decide_eq_true_eq] at ha
    exact ⟨ha.1.1, retired_iff.mp ha.1.2⟩
  · simp only [allowed, hc, Bool.and_eq_true, State.swept, decide_eq_true_eq] at ha
    exact ⟨ha.1, retired_iff.mp ha.2⟩

/-- `discardQueuedRequests` stops where no slot is published. -/
theorem allowed_ready {ok : Bool} (ha : allowed pkg s (.close ok) = true)
    (hc : s.base.closer = .discarding) : ok = s.ready := by
  cases pkg with
  | client =>
    simp only [allowed, hc, Bool.and_eq_true, decide_eq_true_eq] at ha
    exact ha.2
  | client1of1 =>
    simp only [allowed, hc, decide_eq_true_eq] at ha
    exact ha

theorem Queue.session_step (h : Queue pkg s) (hl : Locked s) {a : Sessions.Act Nat}
    {base : Sessions.State Nat} (ha : allowed pkg s a = true)
    (hs : Sessions.step pkg s.base a = some base) : Queue pkg { s with base } where
  base := Sessions.step_inv h.base hs
  unpublished := h.unpublished
  done hd := by
    have hd' : afterSweep pkg base.closer = true := hd
    show s.sweep = .shard pendingShardCount ∧ ∀ j, j < pendingShardCount → s.workers j = .exited
    cases moved ha hs with
    | worked hcloser henq hcanceled htaken => exact h.done (hcloser ▸ hd')
    | canceled hcloser hb => rw [hb] at hd'; cases hd'
    | marking hcloser hcloser' henq hcanceled htaken =>
      rcases hcloser' with ⟨g, h⟩ | ⟨g, h⟩ | h <;> rw [h] at hd' <;> cases hd'
    | joined ok hok hcloser hb =>
      subst hok
      rw [hb] at hd'
      exact allowed_leave ha (Or.inr ⟨of_decide_eq_true hd', hcloser⟩)
    | discarded hcloser hcloser' henq hcanceled =>
      exact h.done (by rw [hcloser]; rw [hcloser'] at hd'; exact hd')
    | finished ok hok hcloser hq hb =>
      subst hok
      cases pkg with
      | client => exact allowed_leave ha (Or.inl ⟨rfl, hcloser⟩)
      | client1of1 => exact h.done (by rw [hcloser]; rfl)
  empty hclosed := by
    have hclosed' : base.closer = .closed := hclosed
    cases moved ha hs with
    | worked hcloser henq hcanceled htaken =>
      have hempty := h.empty (hcloser ▸ hclosed')
      rcases htaken with htaken | hlt
      · show base.taken = base.enqueued.length
        rw [htaken, henq, hempty]
      · rw [hempty] at hlt
        cases Nat.lt_irrefl _ hlt
    | canceled hcloser hb => rw [hb] at hclosed'; cases hclosed'
    | marking hcloser hcloser' henq hcanceled htaken =>
      rcases hcloser' with ⟨g, h⟩ | ⟨g, h⟩ | h <;> rw [h] at hclosed' <;> cases hclosed'
    | joined ok hok hcloser hb => rw [hb] at hclosed'; cases hclosed'
    | discarded hcloser hcloser' henq hcanceled => rw [hcloser'] at hclosed'; cases hclosed'
    | finished ok hok hcloser hq hb =>
      subst hok
      subst hb
      -- a slot that is claimed and not published would have its submission past the check
      have hsweep : s.sweep = .shard pendingShardCount := by
        cases pkg with
        | client => exact (allowed_leave ha (Or.inl ⟨rfl, hcloser⟩)).1
        | client1of1 => exact (h.done (by rw [hcloser]; rfl)).1
      have hpublished : s.base.taken ∉ s.unpublished := by
        intro hmem
        obtain ⟨r, hr⟩ := h.unpublished hmem
        have hthrough := hl.none_through hsweep r
        rw [hr] at hthrough
        cases hthrough
      refine Nat.le_antisymm h.base.taken_le (Nat.not_lt.mp fun hlt => hq ⟨?_, hlt⟩)
      rw [allowed_ready ha hcloser]
      unfold State.ready
      simp [hlt, hpublished]

theorem Queue.after_step (h : Queue pkg s) (hl : Locked s) (hs : Step pkg s s') :
    Queue pkg s' := by
  cases hs with
  | session a base ha hbase => exact h.session_step hl ha hbase
  | begun r waits hr | refused r waits hr | locked r waits hr hmu | turnedAway r waits hr hc
  | registered r l hr hc hp | panicked r hr hc hp | passed r hr hc =>
    exact h.submission (by rw [hr]; nofun) rfl rfl rfl rfl rfl
  | claimed r waits hr =>
    refine ⟨Sessions.step_inv (a := .submit r) h.base rfl, fun {p} hp => ?_, h.done, fun hc => ?_⟩
    · rcases List.mem_cons.mp hp with rfl | hp
      · exact ⟨r, Function.update_self ..⟩
      · exact h.publishing (by rw [hr]; nofun) hp
    · have hthrough := hl.none_through (h.done (by
        have hc' : s.base.closer = .closed := hc
        rw [hc']
        rfl)).1 r
      rw [hr] at hthrough
      cases hthrough
  | full r waits hr => exact h.submission (by rw [hr]; nofun) rfl rfl rfl rfl rfl
  | published r position hr =>
    refine ⟨h.base, fun {p} hp => ?_, h.done, h.empty⟩
    obtain ⟨hmem, hne⟩ := List.mem_filter.mp hp
    obtain ⟨r', hr'⟩ := h.unpublished hmem
    refine ⟨r', ?_⟩
    have hother : r' ≠ r := by
      rintro rfl
      rw [hr] at hr'
      cases hr'
      simp at hne
    show Function.update s.submissions r _ r' = _
    rw [Function.update_of_ne hother]
    exact hr'
  | unlocked r ok hr => exact h.submission (by rw [hr]; nofun) rfl rfl rfl rfl rfl
  | responded r hw | completed j r hw hmu hr | missed j r hw | answered j r hw | retired j hw =>
    exact h.worker (by rw [hw]; nofun) rfl rfl rfl rfl rfl
  | gaveUp r hsub hmu hr => exact ⟨h.base, h.unpublished, h.done, h.empty⟩
  | late => exact h
  | delivered r ho => exact ⟨h.base, h.unpublished, h.done, h.empty⟩
  | took j ht hj hlt hmu =>
    refine h.sweep (fun heq => ?_) rfl rfl rfl
    rw [hj] at heq
    cases heq
    exact Nat.lt_irrefl _ hlt
  | failed j r todo hj | next j hj => exact h.sweep (by rw [hj]; nofun) rfl rfl rfl

/-! ## After `Close` -/

/-- The invariants of a run. -/
structure Inv (pkg : Package) (s : State) : Prop where
  locked : Locked s
  placed : Placed s
  waiters : Waiters s
  queue : Queue pkg s

theorem Inv.after_step (h : Inv pkg s) {a : Act} (hs : step pkg s a = some s') : Inv pkg s' :=
  ⟨h.locked.after_step (step_cases hs), h.placed.after_step (step_cases hs),
    h.waiters.after_step h.locked h.placed (step_cases hs),
    h.queue.after_step h.locked (step_cases hs)⟩

theorem inv_of_exec {acts : List Act} (h : Trans.exec (step pkg) .init acts = some s) : Inv pkg s :=
  Trans.exec_invariant (fun hi hs => hi.after_step hs)
    ⟨locked_init, placed_init, waiters_init, queue_init pkg⟩ h

/-- What is left once `Close` has returned. -/
structure Closed (pkg : Package) (s : State) : Prop where
  queue : s.base.taken = s.base.enqueued.length
  waiters : ∀ j, j < pendingShardCount → s.pending j = none
  /-- A waiter has its result, or has removed its own entry and is about to send it to itself. -/
  results : ∀ r, s.registered r = true →
    s.results r = 1 ∧ s.own r = false ∨ s.results r = 0 ∧ s.own r = true
  /-- Later submissions register and enqueue nothing, and none succeeds. -/
  later : ∀ acts s', Trans.exec (step pkg) s acts = some s' →
    s'.base.enqueued = s.base.enqueued ∧ s'.registered = s.registered ∧
    (∀ j, j < pendingShardCount → s'.pending j = none) ∧ s'.panicked = false ∧
    ∀ r, s'.submissions r = .returned true → s.submissions r = .returned true
  /-- A submission that has not returned can go on to, whatever happens before, with an error. -/
  returns : ∀ acts s' r, Trans.exec (step pkg) s acts = some s' → s'.submissions r ≠ .idle →
    (∀ ok, s'.submissions r ≠ .returned ok) → ∃ acts' s'',
    Trans.exec (step pkg) s' acts' = some s'' ∧ s''.submissions r = .returned false

theorem Inv.results_of_closed (h : Inv pkg s) (hc : s.base.closer = .closed) {r : Nat}
    (hr : s.registered r = true) :
    s.results r = 1 ∧ s.own r = false ∨ s.results r = 0 ∧ s.own r = true := by
  obtain ⟨hsweep, hexited⟩ := h.queue.done (by rw [hc]; rfl)
  have hone := (h.waiters r).one
  have hnil : s.pending (pendingShardIndex r) = none :=
    h.locked.progress (by rw [hsweep]; exact pendingShardIndex_lt r)
  have hentries : s.entries (pendingShardIndex r) = [] := by
    unfold State.entries
    rw [hnil]
    rfl
  have hworker : (s.workers (pendingShardIndex r)).carries r = 0 :=
    Worker.carries_of_ne (by rw [hexited _ (pendingShardIndex_lt r)]; nofun)
  simp only [State.waiter, hr, if_true, hentries, List.count_nil, hworker, hsweep, Sweep.todo] at hone
  cases ho : s.own r with
  | true =>
    rw [ho, Bool.toNat_true] at hone
    exact Or.inr ⟨by omega, rfl⟩
  | false =>
    rw [ho, Bool.toNat_false] at hone
    exact Or.inl ⟨by omega, rfl⟩

theorem Inv.nil_of_closed (h : Inv pkg s) (hc : s.base.closer = .closed) {j : Nat}
    (hj : j < pendingShardCount) : s.pending j = none := by
  obtain ⟨hsweep, -⟩ := h.queue.done (by rw [hc]; rfl)
  exact h.locked.progress (by rw [hsweep]; exact hj)

/-- What a step leaves as it is once `Close` has returned. -/
structure Still (s s' : State) : Prop where
  closer : s'.base.closer = .closed
  enqueued : s'.base.enqueued = s.base.enqueued
  registered : s'.registered = s.registered
  returned : ∀ r, s'.submissions r = .returned true → s.submissions r = .returned true

/-- **A submission after `Close` changes nothing.** -/
theorem Inv.still (h : Inv pkg s) (hc : s.base.closer = .closed) (hs : Step pkg s s') :
    Still s s' := by
  obtain ⟨hsweep, -⟩ := h.queue.done (by rw [hc]; rfl)
  have hcanceled : s.base.canceled = true := h.locked.canceled (by rw [hc]; nofun)
  have outside : ∀ {r}, (s.submissions r).through ≠ true := by
    intro r hr
    rw [h.locked.none_through hsweep r] at hr
    cases hr
  -- a submission that moves on without success
  have moves : ∀ {r : Nat} {x : Submission} {s₁ : State}, x ≠ .returned true →
      s₁.submissions = Function.update s.submissions r x → s₁.base = s.base →
      s₁.registered = s.registered → Still s s₁ := by
    intro r x s₁ hx hsub hbase hreg
    refine ⟨by rw [hbase, hc], by rw [hbase], hreg, fun r' hr' => ?_⟩
    rw [hsub] at hr'
    by_cases heq : r' = r
    · rw [heq, Function.update_self] at hr'
      exact absurd hr' hx
    · rwa [Function.update_of_ne heq] at hr'
  cases hs with
  | session a base ha hbase =>
    have hmoved := moved ha hbase
    refine ⟨?_, hmoved.enqueued_eq, rfl, fun _ hr => hr⟩
    cases hmoved with
    | worked hcloser henq hcanceled htaken => exact hcloser.trans hc
    | canceled hcloser hb => rw [hc] at hcloser; cases hcloser
    | marking hcloser hcloser' henq hcanceled htaken =>
      rw [hc] at hcloser
      rcases hcloser with h | ⟨g, h⟩ | ⟨g, h⟩ <;> cases h
    | joined ok hok hcloser hb | discarded hcloser hcloser' henq hcanceled
    | finished ok hok hcloser hq hb => rw [hc] at hcloser; cases hcloser
  | begun r waits hr | refused r waits hr | locked r waits hr hmu | turnedAway r waits hr hcancel =>
    exact moves (by nofun) rfl rfl rfl
  | registered r l hr hcancel hp | panicked r hr hcancel hp | passed r hr hcancel =>
    rw [hcanceled] at hcancel; cases hcancel
  | claimed r waits hr | full r waits hr | published r position hr =>
    exact absurd (by rw [hr]; rfl) (outside (r := r))
  | unlocked r ok hr =>
    cases ok with
    | true => exact absurd (by rw [hr]; rfl) (outside (r := r))
    | false => exact moves (by nofun) rfl rfl rfl
  | _ => exact ⟨hc, rfl, rfl, fun _ hr => hr⟩

theorem Inv.still_run (h : Inv pkg s) (hc : s.base.closer = .closed) {acts : List Act}
    (hrun : Trans.exec (step pkg) s acts = some s') : Inv pkg s' ∧ Still s s' :=
  Trans.exec_invariant (I := fun t => Inv pkg t ∧ Still s t)
    (fun ⟨hi, hst⟩ hs => by
      have hnext := hi.still hst.closer (step_cases hs)
      exact ⟨hi.after_step hs, hnext.closer, hnext.enqueued.trans hst.enqueued,
        hnext.registered.trans hst.registered, fun r hr => hst.returned r (hnext.returned r hr)⟩)
    ⟨h, hc, rfl, rfl, fun _ hr => hr⟩ hrun

theorem leave_step (pkg : Package) {r : Nat} {ok : Bool} (hr : s.submissions r = .leaving ok) :
    step pkg s (.enqueue r false) = some { s.setSubmission r (.returned ok) with
      mu := Function.update s.mu (pendingShardIndex r) none } := by
  simp only [step, enqueueStep, hr]

/-- Who is inside leaves with an error, and nobody else has to move. -/
theorem Inv.leaves (h : Inv pkg s) (hc : s.base.closer = .closed) {r : Nat}
    (hr : (s.submissions r).inside = true) : ∃ acts s', Trans.exec (step pkg) s acts = some s' ∧
      s'.submissions = Function.update s.submissions r (.returned false) ∧
      s'.mu (pendingShardIndex r) = none ∧ s'.base = s.base := by
  obtain ⟨hsweep, -⟩ := h.queue.done (by rw [hc]; rfl)
  have hcanceled : s.base.canceled = true := h.locked.canceled (by rw [hc]; nofun)
  have hthrough := h.locked.none_through hsweep r
  cases hx : s.submissions r with
  | checking waits =>
    have hcheck : step pkg s (.enqueue r false) = some (s.setSubmission r (.leaving false)) := by
      simp only [step, enqueueStep, hx, if_pos hcanceled]
    have hleave := leave_step pkg (s := s.setSubmission r (.leaving false)) (r := r)
      (Function.update_self ..)
    have hrun := Trans.exec_cons.mpr ⟨_, hcheck, Trans.exec_cons.mpr ⟨_, hleave, Trans.exec_nil _⟩⟩
    exact ⟨_, _, hrun, Function.update_idem .., Function.update_self .., rfl⟩
  | leaving ok =>
    rw [hx] at hthrough
    cases ok with
    | true => cases hthrough
    | false =>
      have hrun := Trans.exec_cons.mpr ⟨_, leave_step pkg hx, Trans.exec_nil _⟩
      exact ⟨_, _, hrun, rfl, Function.update_self .., rfl⟩
  | registered waits | publishing position => rw [hx] at hthrough; cases hthrough
  | _ => rw [hx] at hr; cases hr

/-- **A submission that finds the connection closed can return.** -/
theorem Inv.returns (h : Inv pkg s) (hc : s.base.closer = .closed) {r : Nat}
    (hidle : s.submissions r ≠ .idle) (hreturned : ∀ ok, s.submissions r ≠ .returned ok) :
    ∃ acts s', Trans.exec (step pkg) s acts = some s' ∧ s'.submissions r = .returned false := by
  by_cases hin : (s.submissions r).inside = true
  · obtain ⟨acts, s', hrun, hsub, -⟩ := h.leaves hc hin
    exact ⟨acts, s', hrun, by rw [hsub, Function.update_self]⟩
  obtain ⟨waits, hr⟩ : ∃ waits, s.submissions r = .entering waits := by
    cases hx : s.submissions r with
    | entering waits => exact ⟨waits, rfl⟩
    | idle => exact absurd hx hidle
    | returned ok => exact absurd hx (hreturned ok)
    | _ => rw [hx] at hin; exact absurd rfl hin
  -- who holds the lock leaves first
  obtain ⟨acts, s₁, hrun, hr₁, hmu, hbase⟩ : ∃ acts s₁, Trans.exec (step pkg) s acts = some s₁ ∧
      s₁.submissions r = .entering waits ∧ s₁.mu (pendingShardIndex r) = none ∧
      s₁.base = s.base := by
    cases hmu : s.mu (pendingShardIndex r) with
    | none => exact ⟨[], s, rfl, hr, hmu, rfl⟩
    | some r' =>
      obtain ⟨hindex, hin'⟩ := (h.locked.owned _ r').mp hmu
      obtain ⟨acts, s₁, hrun, hsub, hfree, hbase⟩ := h.leaves hc hin'
      refine ⟨acts, s₁, hrun, ?_, hindex ▸ hfree, hbase⟩
      have hne : r ≠ r' := by
        rintro rfl
        exact hin hin'
      rw [hsub, Function.update_of_ne hne, hr]
  have hlock : step pkg s₁ (.enqueue r false) =
      some { s₁.setSubmission r (.checking waits) with
        mu := Function.update s₁.mu (pendingShardIndex r) (some r) } := by
    simp only [step, enqueueStep, hr₁, hmu]
  have h₁ := Trans.exec_invariant (fun hi hs => Inv.after_step hi hs) h hrun
  have hchecking := Function.update_self r (.checking waits) s₁.submissions
  obtain ⟨acts', s', hrun', hsub, -⟩ := (h₁.after_step hlock).leaves
    ((congrArg Sessions.State.closer hbase).trans hc) (congrArg Submission.inside hchecking)
  refine ⟨acts ++ .enqueue r false :: acts', s', ?_, by rw [hsub, Function.update_self]⟩
  exact Trans.exec_append.mpr ⟨s₁, hrun, Trans.exec_cons.mpr ⟨_, hlock, hrun'⟩⟩

/-- **`Close` leaves nothing behind.** -/
theorem Inv.closed (h : Inv pkg s) (hc : s.base.closer = .closed) : Closed pkg s where
  queue := h.queue.empty hc
  waiters _ hj := h.nil_of_closed hc hj
  results _ hr := h.results_of_closed hc hr
  later acts s' hrun := by
    obtain ⟨hi, hstill⟩ := h.still_run hc hrun
    exact ⟨hstill.enqueued, hstill.registered, fun j hj => hi.nil_of_closed hstill.closer hj,
      hi.locked.panicked, hstill.returned⟩
  returns acts s' r hrun hidle hreturned := by
    obtain ⟨hi, hstill⟩ := h.still_run hc hrun
    exact hi.returns hstill.closer hidle hreturned

end RedLease.Shutdown
