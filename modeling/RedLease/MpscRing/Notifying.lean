import RedLease.MpscRing.Correct

/-!
# The ring with a wakeup signal

`NotifyingRing` of `internal/mpscring/ring.go` and the goroutines that use it. After its slot is
published, a producer sends to the channel `ready`, which holds one token, and does not wait if
there is one already. The consumer calls `TryDequeue` until that reports empty, and then receives
from `Ready()`. It may stop between two calls or while it waits, and its successor, as the next
session of a client, begins with `TryDequeue`; a token that the first has received is gone then.

**`no_lost_wakeup`**: a consumer that waits without a token, while no producer is about to signal,
has an unpublished slot at its head. The invariant is `Alerted`: when the consumer has found its
head unpublished and the slot has been published since, a token or a signal is on its way.
-/

namespace RedLease.MpscRing

/-- `NotifyingRing` with its producers and its consumer. -/
structure Notifying (P T : Type) where
  ring : State P T
  /-- The channel `ready` holds a token. -/
  ready : Bool
  /-- The producer has published its slot, and its send to `ready` is next. -/
  signalling : P → Bool
  /-- The consumer waits for `Ready()`. -/
  waiting : Bool

/-- An access of the ring or of the channel `ready`. -/
inductive NotifyingAct (P T : Type) where
  /-- An access of the ring by a producer or by the consumer. -/
  | ring (a : Act P T)
  /-- The `select` that sends to `ready`. -/
  | signal (p : P)
  /-- The consumer has found nothing and waits. -/
  | wait
  | receive
  /-- The consumer stops, and a successor takes its place. -/
  | replace

section Model

variable {P T : Type} [DecidableEq P]

/-- The producer that takes part in an access. -/
def Act.producer : Act P T → Option P
  | .tryEnqueue p _ | .tryStartEnqueue p | .produce p | .fill p _ | .finishEnqueue p => some p
  | _ => none

/-- The producer that publishes its slot in an access. -/
def Act.publishes (s : State P T) : Act P T → Option P
  | .produce p =>
    match s.producers p with
    | .publish _ _ => some p
    | _ => none
  | .finishEnqueue p => some p
  | _ => none

/-- No call of the consumer is in progress. -/
def Consumer.resting : Consumer T → Bool
  | .idle | .empty => true
  | _ => false

namespace Notifying

variable [Inhabited T] (s : Notifying P T)

/-- `NewNotifying`. -/
def init : Notifying P T where
  ring := .init
  ready := false
  signalling _ := false
  waiting := false

/-- Who takes part in an access is not busy with the channel. -/
def free (a : Act P T) : Bool :=
  match a.producer with
  | some p => !s.signalling p
  | none => !s.waiting

/-- The producer that has published is about to signal. -/
def published : Option P → P → Bool
  | some p => Function.update s.signalling p true
  | none => s.signalling

/-- A consumer that begins anew. -/
def restart : Notifying P T :=
  { s with ring := { s.ring with consumer := .idle }, waiting := false }

/-- One step; who has published a slot sends a signal next. -/
def step (cap : Capacity) (s : Notifying P T) : NotifyingAct P T → Option (Notifying P T)
  | .ring a =>
    if s.free a then
      (MpscRing.step cap s.ring a).map fun ring =>
        { s with ring, signalling := s.published (a.publishes s.ring) }
    else none
  | .signal p =>
    if s.signalling p then
      some { s with ready := true, signalling := Function.update s.signalling p false }
    else none
  | .wait =>
    match s.ring.consumer with
    | .empty => if s.waiting then none else some { s with waiting := true }
    | _ => none
  | .receive => if s.waiting && s.ready then some { s.restart with ready := false } else none
  | .replace => if s.ring.consumer.resting then some s.restart else none

end Notifying

end Model

/-! ## No lost wakeup -/

section Wakeup

variable {P T : Type} [DecidableEq P] [Inhabited T] {cap : Capacity}

/-- The slot at `head` is published, as `tryDequeue` checks it. -/
def State.headPublished (cap : Capacity) (s : State P T) : Prop :=
  (s.slots (cap.index s.head)).sequence = add64 s.head 1

/-- An access of a producer leaves the consumer and `head` alone, and if it publishes nothing, all
sequences. -/
structure Aside (s s' : State P T) (a : Act P T) : Prop where
  consumer : s'.consumer = s.consumer
  head : s'.head = s.head
  sequence : a.publishes s = none → ∀ i, (s'.slots i).sequence = (s.slots i).sequence

theorem produce_aside {s s' : State P T} {p : P} (hs : produce cap s p = some s') :
    Aside s s' (.produce p) := by
  unfold produce at hs
  split at hs
  case h_1 =>
    cases hs
    exact ⟨rfl, rfl, fun _ _ => rfl⟩
  case h_2 =>
    dsimp only at hs
    split_ifs at hs
    all_goals
      cases hs
      exact ⟨rfl, rfl, fun _ _ => rfl⟩
  case h_3 =>
    split_ifs at hs
    · split at hs
      all_goals
        cases hs
        exact ⟨rfl, rfl, fun _ _ => rfl⟩
    · cases hs
      exact ⟨rfl, rfl, fun _ _ => rfl⟩
  case h_4 value position hp =>
    cases hs
    exact ⟨rfl, rfl, fun _ i => setValue_sequence position i value⟩
  case h_5 position content hp =>
    cases hs
    refine ⟨rfl, rfl, fun hnone => ?_⟩
    simp only [Act.publishes, hp] at hnone
    cases hnone
  case h_6 => cases hs

theorem step_aside {s s' : State P T} {a : Act P T} {p : P} (ha : a.producer = some p)
    (hs : step cap s a = some s') : Aside s s' a := by
  cases a with
  | tryEnqueue q value | tryStartEnqueue q =>
    simp only [step] at hs
    split at hs
    case h_3 => cases hs
    all_goals
      cases hs
      exact ⟨rfl, rfl, fun _ _ => rfl⟩
  | produce q => exact produce_aside hs
  | fill q value =>
    simp only [step] at hs
    split at hs
    · rename_i position content hq
      cases hs
      exact ⟨rfl, rfl, fun _ i => setValue_sequence position i value⟩
    · cases hs
  | finishEnqueue q =>
    simp only [step] at hs
    split at hs
    · cases hs
      exact ⟨rfl, rfl, by rintro ⟨⟩⟩
    · cases hs
  | tryDequeue | tryStartDequeue | finishDequeue | consume => cases ha

/-- An access of the consumer: what it knows of `head`, and when it finds nothing. -/
structure Inside (cap : Capacity) (s s' : State P T) : Prop where
  loaded : ∀ b q, s'.consumer = .loadSequence b q → q = s'.head
  empty : s'.consumer = .empty → s'.slots = s.slots ∧ s'.head = s.head ∧
    ∃ b q, s.consumer = .loadSequence b q ∧ (s.slots (cap.index q)).sequence ≠ add64 q 1

omit [DecidableEq P] in
theorem consume_inside {s s' : State P T} (hs : consume cap s = some s') : Inside cap s s' := by
  unfold consume at hs
  split at hs
  case h_1 b hc =>
    cases hs
    refine ⟨?_, nofun⟩
    rintro b' q ⟨⟩
    rfl
  case h_2 b q hc =>
    split_ifs at hs with hseq
    · cases hs
      exact ⟨nofun, fun _ => ⟨rfl, rfl, b, q, hc, hseq⟩⟩
    · cases hs
      exact ⟨nofun, nofun⟩
    · cases hs
      exact ⟨nofun, nofun⟩
  case h_8 => cases hs
  all_goals
    cases hs
    exact ⟨nofun, nofun⟩

theorem step_inside {s s' : State P T} {a : Act P T} (ha : a.producer = none)
    (hs : step cap s a = some s') : Inside cap s s' := by
  cases a with
  | tryEnqueue q value | tryStartEnqueue q | produce q | fill q value | finishEnqueue q => cases ha
  | tryDequeue | tryStartDequeue =>
    simp only [step] at hs
    split at hs
    case h_3 => cases hs
    all_goals
      cases hs
      exact ⟨(by rintro _ _ ⟨⟩), by rintro ⟨⟩⟩
  | finishDequeue =>
    simp only [step] at hs
    split at hs
    · cases hs
      exact ⟨(by rintro _ _ ⟨⟩), by rintro ⟨⟩⟩
    · cases hs
  | consume => exact consume_inside hs

namespace Notifying

variable {s s' : Notifying P T}

/-- Whoever has found the head of the ring unpublished hears of it when it is published. -/
structure Alerted (cap : Capacity) (s : Notifying P T) : Prop where
  /-- The consumer looks at the slot at `head`. -/
  loaded : ∀ b q, s.ring.consumer = .loadSequence b q → q = s.ring.head
  alerted : s.ring.consumer = .empty → s.ring.headPublished cap →
    s.ready = true ∨ ∃ p, s.signalling p = true
  waiting : s.waiting = true → s.ring.consumer = .empty

omit [DecidableEq P] in
theorem alerted_init : Alerted cap (init : Notifying P T) where
  loaded _ _ h := by cases h
  alerted h := by cases h
  waiting h := by cases h

omit [DecidableEq P] [Inhabited T] in
theorem alerted_restart (ready : Bool) : Alerted cap { s.restart with ready } where
  loaded _ _ hc := by cases hc
  alerted hc := by cases hc
  waiting hw := by cases hw

omit [Inhabited T] in
/-- A producer's access: a slot is published only by a producer that signals next. -/
theorem Alerted.produce (h : s.Alerted cap) {a : Act P T} {ring : State P T}
    (ha : Aside s.ring ring a) :
    Alerted cap { s with ring, signalling := s.published (a.publishes s.ring) } where
  loaded b q hc := by
    rw [ha.head]
    exact h.loaded b q (ha.consumer ▸ hc)
  alerted hc hpub := by
    cases hp : a.publishes s.ring with
    | some p => exact Or.inr ⟨p, Function.update_self ..⟩
    | none =>
      refine h.alerted (ha.consumer ▸ hc) ?_
      have hpub' : (ring.slots (cap.index ring.head)).sequence = add64 ring.head 1 := hpub
      rw [ha.head, ha.sequence hp] at hpub'
      exact hpub'
  waiting hw := by
    rw [ha.consumer]
    exact h.waiting hw

omit [Inhabited T] in
/-- The consumer's access: it goes to wait only when the slot at `head` is not published. -/
theorem Alerted.consume (h : s.Alerted cap) {a : Act P T} {ring : State P T}
    (ha : Inside cap s.ring ring) (hw : s.waiting = false) :
    Alerted cap { s with ring, signalling := s.published (a.publishes s.ring) } where
  loaded := ha.loaded
  alerted hc hpub := by
    obtain ⟨hslots, hhead, b, q, hq, hseq⟩ := ha.empty hc
    have hpub' : (ring.slots (cap.index ring.head)).sequence = add64 ring.head 1 := hpub
    rw [hslots, hhead, ← h.loaded b q hq] at hpub'
    exact absurd hpub' hseq
  waiting hw' := by
    have hw'' : s.waiting = true := hw'
    rw [hw] at hw''
    cases hw''

theorem Alerted.after_step (h : s.Alerted cap) {a : NotifyingAct P T}
    (hs : step cap s a = some s') : s'.Alerted cap := by
  cases a with
  | ring a =>
    simp only [step] at hs
    split_ifs at hs with hfree
    obtain ⟨ring, hring, rfl⟩ := Option.map_eq_some_iff.mp hs
    cases hp : a.producer with
    | some p => exact h.produce (step_aside hp hring)
    | none =>
      refine h.consume (step_inside hp hring) ?_
      simpa [free, hp] using hfree
  | signal p =>
    simp only [step] at hs
    split_ifs at hs
    cases hs
    exact ⟨h.loaded, fun _ _ => Or.inl rfl, h.waiting⟩
  | wait =>
    simp only [step] at hs
    split at hs
    · rename_i hc
      split_ifs at hs
      cases hs
      exact ⟨h.loaded, h.alerted, fun _ => hc⟩
    · cases hs
  | receive =>
    simp only [step] at hs
    split_ifs at hs
    cases hs
    exact alerted_restart false
  | replace =>
    simp only [step] at hs
    split_ifs at hs
    cases hs
    exact alerted_restart s.ready

/-- **No wakeup is lost**: when the consumer waits for `Ready()` without a token, and no producer is
between publishing its slot and signalling, the slot at the head of the ring is not published. -/
theorem no_lost_wakeup (cap : Capacity) (acts : List (NotifyingAct P T)) {s : Notifying P T}
    (h : Lib.Trans.exec (step cap) init acts = some s) (hwaiting : s.waiting = true)
    (hready : s.ready = false) (hsignalling : ∀ p, s.signalling p = false) :
    ¬ s.ring.headPublished cap := by
  have ha : s.Alerted cap := Lib.Trans.exec_invariant (fun h hs => h.after_step hs) alerted_init h
  intro hpub
  rcases ha.alerted (ha.waiting hwaiting) hpub with hr | ⟨p, hp⟩
  · rw [hready] at hr
    cases hr
  · rw [hsignalling p] at hp
    cases hp

/-- Two producers have claimed a slot each, and the second publishes and signals first. The consumer
receives its token, finds the head unpublished and is replaced; its successor waits. -/
def strandedActs : List (NotifyingAct Bool Nat) :=
  [.ring (.tryEnqueue true 7), .ring (.produce true), .ring (.produce true), .ring (.produce true),
    .ring (.tryEnqueue false 8), .ring (.produce false), .ring (.produce false),
    .ring (.produce false), .ring (.produce false), .ring (.produce false), .signal false,
    .ring .tryDequeue, .ring .consume, .ring .consume, .wait, .receive, .replace,
    .ring .tryDequeue, .ring .consume, .ring .consume, .wait]

theorem no_lost_wakeup_strandedActs :
    ∃ s, Lib.Trans.exec (step pairCapacity) init strandedActs = some s ∧ s.ring.tail = 2 ∧
      s.ring.published 1 = some 8 ∧ ¬ s.ring.headPublished pairCapacity := by
  refine ⟨_, rfl, rfl, rfl, ?_⟩
  exact no_lost_wakeup pairCapacity strandedActs rfl rfl rfl (by decide)

end Notifying

end Wakeup

end RedLease.MpscRing
