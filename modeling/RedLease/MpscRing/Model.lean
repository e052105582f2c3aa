import Mathlib.Algebra.Group.Nat.Defs
import RedLease.Lib.Trans

/-!
# The multi-producer, single-consumer ring

`internal/mpscring/ring.go` under sequential consistency: any number of producers and one consumer,
each of which moves from one access of shared memory to the next (`head`, `tail`, a slot's `sequence`
or its `value`). Counters are `uint64`, as natural numbers with `% 2^64`.

A producer claims the position it loaded from `tail` by a compare-and-swap, fills the slot, and
publishes it by storing `position + 1` in the slot's sequence; the consumer takes a published slot
and hands it back for the next lap by storing `position + capacity`. The state also keeps the
history that the results speak about: who claimed each position and what they published there
(`claims`), what each producer sent in its program order (`sent`), and what came out (`dequeued`).
-/

namespace RedLease.MpscRing

/-- The capacity `newRing` accepts: an `int` that is a power of two greater than one. -/
structure Capacity where
  size : Nat
  size_pow : ∃ b, size = 2 ^ b
  two_le : 2 ≤ size
  size_lt : size < 2 ^ 63

/-- Addition in `uint64`. -/
def add64 (a b : Nat) : Nat := (a + b) % 2 ^ 64

/-- `position & mask`. -/
def Capacity.index (cap : Capacity) (position : Nat) : Nat := position &&& (cap.size - 1)

/-- A slot of the ring. -/
structure Slot (T : Type) where
  sequence : Nat
  value : T

/-- Where a producer stands. In `tryEnqueue` it carries its value, in `tryStartEnqueue` none; with a
ticket it fills the slot in place, and `content` is what it has written. -/
inductive Producer (T : Type) where
  | idle
  | full
  | loadTail (value : Option T)
  | loadSequence (value : Option T) (position : Nat)
  | swap (value : Option T) (position : Nat)
  | write (value : T) (position : Nat)
  | publish (position : Nat) (content : T)
  | filling (position : Nat) (content : T)

/-- Where the consumer stands. `holding` is between `tryStartDequeue` and `finishDequeue`, and
`reload` is the load of `head` in the latter. -/
inductive Consumer (T : Type) where
  | idle
  | empty
  | loadHead (inPlace : Bool)
  | loadSequence (inPlace : Bool) (position : Nat)
  | read (position : Nat)
  | holding (position : Nat)
  | reload
  | clear (position : Nat) (value : T)
  | storeHead (position : Nat) (value : T)
  | storeSequence (position : Nat) (value : T)

/-- The ring, its threads, and its history. -/
structure State (P T : Type) where
  head : Nat
  tail : Nat
  slots : Nat → Slot T
  producers : P → Producer T
  consumer : Consumer T
  /-- The producer of each claimed position, with the value once it is published. -/
  claims : List (P × Option T)
  /-- The values each producer has published, in its program order. -/
  sent : P → List T
  /-- The values of the released positions. -/
  dequeued : List T

/-- The accesses of the ring. -/
inductive Act (P T : Type) where
  | tryEnqueue (p : P) (value : T)
  | tryStartEnqueue (p : P)
  /-- The next access of the producer's call. -/
  | produce (p : P)
  /-- The producer writes through the pointer of its ticket. -/
  | fill (p : P) (value : T)
  | finishEnqueue (p : P)
  | tryDequeue
  | tryStartDequeue
  | finishDequeue
  /-- The next access of the consumer's call. -/
  | consume

section Model

variable {P T : Type} [DecidableEq P] [Inhabited T]

/-- `newRing`. -/
def State.init : State P T where
  head := 0
  tail := 0
  slots index := ⟨index, default⟩
  producers _ := .idle
  consumer := .idle
  claims := []
  sent _ := []
  dequeued := []

namespace State

variable (cap : Capacity) (s : State P T)

/-- Producer `p` goes on to `pr`. -/
def setProducer (p : P) (pr : Producer T) : State P T :=
  { s with producers := Function.update s.producers p pr }

/-- `slot.value = value`. -/
def setValue (position : Nat) (value : T) : State P T :=
  { s with
    slots := Function.update s.slots (cap.index position)
      ⟨(s.slots (cap.index position)).sequence, value⟩ }

/-- `slot.sequence.Store(sequence)`. -/
def setSequence (position sequence : Nat) : State P T :=
  { s with
    slots := Function.update s.slots (cap.index position)
      ⟨sequence, (s.slots (cap.index position)).value⟩ }

/-- The compare-and-swap of `tail` succeeds. -/
def claim (p : P) (position : Nat) : State P T :=
  { s with tail := add64 position 1, claims := s.claims ++ [(p, none)] }

/-- `slot.sequence.Store(position + 1)` by the producer that has written `content`. -/
def publish (p : P) (position : Nat) (content : T) : State P T :=
  { s.setSequence cap position (add64 position 1) with
    claims := s.claims.set position (p, some content)
    sent := Function.update s.sent p (s.sent p ++ [content]) }

/-- `slot.sequence.Store(position + q.capacity)` by the consumer. -/
def release (position : Nat) (value : T) : State P T :=
  { s.setSequence cap position (add64 position cap.size) with dequeued := s.dequeued ++ [value] }

end State

/-- The next access of a call of `tryEnqueue` or `tryStartEnqueue`. -/
def produce (cap : Capacity) (s : State P T) (p : P) : Option (State P T) :=
  match s.producers p with
  | .loadTail value => some (s.setProducer p (.loadSequence value s.tail))
  | .loadSequence value position =>
    let sequence := (s.slots (cap.index position)).sequence
    if sequence = position then some (s.setProducer p (.swap value position))
    else if sequence < position then some (s.setProducer p .full)
    else some (s.setProducer p (.loadTail value))
  | .swap value position =>
    if s.tail = position then
      match value with
      | some v => some ((s.claim p position).setProducer p (.write v position))
      | none => some ((s.claim p position).setProducer p (.filling position default))
    else some (s.setProducer p (.loadTail value))
  | .write value position =>
    some ((s.setValue cap position value).setProducer p (.publish position value))
  | .publish position content => some ((s.publish cap p position content).setProducer p .idle)
  | _ => none

/-- The next access of a call of `tryDequeue`, `tryStartDequeue` or `finishDequeue`. -/
def consume (cap : Capacity) (s : State P T) : Option (State P T) :=
  match s.consumer with
  | .loadHead inPlace => some { s with consumer := .loadSequence inPlace s.head }
  | .loadSequence inPlace position =>
    if (s.slots (cap.index position)).sequence ≠ add64 position 1 then
      some { s with consumer := .empty }
    else some { s with consumer := if inPlace then .holding position else .read position }
  | .read position =>
    some { s with consumer := .clear position (s.slots (cap.index position)).value }
  | .reload =>
    -- what the application has seen through the pointer is the content of the slot
    some { s with consumer := .clear s.head (s.slots (cap.index s.head)).value }
  | .clear position value =>
    some { s.setValue cap position default with consumer := .storeHead position value }
  | .storeHead position value =>
    some { s with head := add64 position 1, consumer := .storeSequence position value }
  | .storeSequence position value =>
    some { s.release cap position value with consumer := .idle }
  | _ => none

/-- One atomic step of a producer or of the consumer. -/
def step (cap : Capacity) (s : State P T) : Act P T → Option (State P T)
  | .tryEnqueue p value =>
    match s.producers p with
    | .idle | .full => some (s.setProducer p (.loadTail (some value)))
    | _ => none
  | .tryStartEnqueue p =>
    match s.producers p with
    | .idle | .full => some (s.setProducer p (.loadTail none))
    | _ => none
  | .produce p => produce cap s p
  | .fill p value =>
    match s.producers p with
    | .filling position _ =>
      some ((s.setValue cap position value).setProducer p (.filling position value))
    | _ => none
  | .finishEnqueue p =>
    match s.producers p with
    | .filling position content => some ((s.publish cap p position content).setProducer p .idle)
    | _ => none
  | .tryDequeue =>
    match s.consumer with
    | .idle | .empty => some { s with consumer := .loadHead false }
    | _ => none
  | .tryStartDequeue =>
    match s.consumer with
    | .idle | .empty => some { s with consumer := .loadHead true }
    | _ => none
  | .finishDequeue =>
    match s.consumer with
    | .holding _ => some { s with consumer := .reload }
    | _ => none
  | .consume => consume cap s

end Model

end RedLease.MpscRing
