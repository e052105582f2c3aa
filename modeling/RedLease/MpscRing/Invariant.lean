import Mathlib.Order.Interval.Finset.Nat
import RedLease.MpscRing.Model

/-!
# The invariant of the ring

In the window of the `capacity` positions from the first one that is not released, no two positions
share a slot; the sequence of a slot tells whether its position is published; and every position
that is claimed and not published is owned by the producer that claimed it. `Inv` says so, with what
each thread knows at each of its program points.

One lemma for each kind of access of shared memory says that `Inv` is kept: `Inv.claim`, `Inv.fill`,
`Inv.publish`, `Inv.clear`, `Inv.storeHead` and `Inv.release`.
-/

namespace RedLease.MpscRing

/-! ## Positions and slots -/

section Invariant

variable {P T : Type} {cap : Capacity} {s s' : State P T} {p : P}

/-- What was published at a position. -/
def State.published (s : State P T) (q : Nat) : Option T := s.claims[q]?.bind Prod.snd

/-- The number of positions that the consumer has handed back. -/
def State.released (s : State P T) : Nat := s.dequeued.length

/-- Producer `p` has claimed `q`, has not published it, and has claimed nothing since. -/
def Owns (s : State P T) (p : P) (q : Nat) : Prop :=
  s.claims[q]? = some (p, none) ∧ ∀ q', q < q' → s.claims[q']?.map Prod.fst ≠ some p

theorem Capacity.index_eq (cap : Capacity) (q : Nat) : cap.index q = q % cap.size := by
  obtain ⟨b, hb⟩ := cap.size_pow
  rw [Capacity.index, hb, Nat.and_two_pow_sub_one_eq_mod]

/-- Within a window of `capacity` positions no two share a slot. -/
theorem Capacity.index_inj (cap : Capacity) {r q q' : Nat} (hq : r ≤ q) (hq2 : q < r + cap.size)
    (hq' : r ≤ q') (hq2' : q' < r + cap.size) (h : cap.index q = cap.index q') : q = q' := by
  rw [cap.index_eq, cap.index_eq] at h
  exact Nat.mod_injOn_Ico r cap.size (Finset.mem_coe.mpr (Finset.mem_Ico.mpr ⟨hq, hq2⟩))
    (Finset.mem_coe.mpr (Finset.mem_Ico.mpr ⟨hq', hq2'⟩)) h

theorem Capacity.index_add_size (cap : Capacity) (q : Nat) :
    cap.index (q + cap.size) = cap.index q := by
  rw [cap.index_eq, cap.index_eq, Nat.add_mod_right]

/-- Every slot has a position in the window. -/
theorem Capacity.exists_in_window (cap : Capacity) (x r : Nat) :
    ∃ q, r ≤ q ∧ q < r + cap.size ∧ cap.index q = cap.index x := by
  induction r with
  | zero =>
    have hpos : 0 < cap.size := lt_of_lt_of_le Nat.two_pos cap.two_le
    refine ⟨x % cap.size, Nat.zero_le _, ?_, ?_⟩
    · rw [Nat.zero_add]; exact Nat.mod_lt _ hpos
    · rw [cap.index_eq, cap.index_eq, Nat.mod_mod]
  | succ r ih =>
    obtain ⟨q, hr, hlt, hi⟩ := ih
    by_cases hq : q = r
    · exact ⟨q + cap.size, by have := cap.two_le; omega, by omega, by rw [cap.index_add_size, hi]⟩
    · exact ⟨q, by omega, by omega, hi⟩

theorem add64_eq {a b : Nat} (ha : a < 2 ^ 63) (hb : b < 2 ^ 63) : add64 a b = a + b := by
  rw [add64, Nat.mod_eq_of_lt (by omega)]

theorem published_lt {q : Nat} (h : s.published q ≠ none) : q < s.claims.length := by
  by_contra hq
  rw [State.published, List.getElem?_eq_none (not_lt.mp hq)] at h
  exact h rfl

theorem Owns.lt {q : Nat} (h : Owns s p q) : q < s.claims.length :=
  (List.getElem?_eq_some_iff.mp h.1).1

theorem Owns.published {q : Nat} (h : Owns s p q) : s.published q = none := by
  rw [State.published, h.1]; rfl

/-! ## The invariant -/

/-- What a producer knows at each point of its call. -/
def ProducerInv (cap : Capacity) (s : State P T) (p : P) : Producer T → Prop
  | .loadSequence _ q => q ≤ s.claims.length
  | .swap _ q => q < s.released + cap.size
  | .write _ q => Owns s p q
  | .publish q v => Owns s p q ∧ (s.slots (cap.index q)).value = v
  | .filling q v => Owns s p q ∧ (s.slots (cap.index q)).value = v
  | _ => True

variable [DecidableEq P] [Inhabited T]

/-- What the consumer knows. -/
def ConsumerInv (cap : Capacity) (s : State P T) : Consumer T → Prop
  | .loadSequence _ q => q = s.released
  | .read q => q = s.released ∧ s.published q ≠ none
  | .holding q => q = s.released ∧ s.published q ≠ none
  | .reload => s.published s.released ≠ none
  | .clear q v => q = s.released ∧ s.published q = some v
  | .storeHead q v => q = s.released ∧ s.published q = some v ∧
      (s.slots (cap.index q)).value = default
  | .storeSequence q v => q = s.released ∧ s.published q = some v ∧
      (s.slots (cap.index q)).value = default
  | _ => True

/-- `head` is ahead of the released positions between the last two stores of a dequeue. -/
def Consumer.lag : Consumer T → Nat
  | .storeSequence _ _ => 1
  | _ => 0

/-- The consumer has cleared the slot it is about to release. -/
def Consumer.cleared : Consumer T → Bool
  | .storeHead _ _ | .storeSequence _ _ => true
  | _ => false

/-- **The ring**: the claimed positions, and what their slots hold. -/
structure Inv (cap : Capacity) (s : State P T) : Prop where
  tail : s.tail = s.claims.length
  head : s.head = s.released + s.consumer.lag
  window : s.claims.length ≤ s.released + cap.size
  sequence : ∀ q, s.released ≤ q → q < s.released + cap.size →
    (s.slots (cap.index q)).sequence = if s.published q = none then q else q + 1
  value : ∀ q v, s.released ≤ q → s.published q = some v →
    ¬ (q = s.released ∧ s.consumer.cleared = true) → (s.slots (cap.index q)).value = v
  vacant : ∀ q, s.claims.length ≤ q → q < s.released + cap.size →
    (s.slots (cap.index q)).value = default
  order : ∀ j v, s.dequeued[j]? = some v → s.published j = some v
  sent : ∀ p, s.sent p = s.claims.filterMap fun c => if c.1 = p then c.2 else none
  producers : ∀ p, ProducerInv cap s p (s.producers p)
  consumer : ConsumerInv cap s s.consumer

/-- What is released was published, so what is owned is in the window. -/
theorem Inv.released_le_of_owns (h : Inv cap s) {q : Nat} (ho : Owns s p q) : s.released ≤ q := by
  by_contra hq
  have hlt : q < s.dequeued.length := not_le.mp hq
  have := h.order q _ (List.getElem?_eq_getElem hlt)
  rw [ho.published] at this
  cases this

theorem Inv.released_le (h : Inv cap s) : s.released ≤ s.claims.length := by
  by_contra hlt
  have hr : s.claims.length < s.dequeued.length := not_le.mp hlt
  have hp := h.order _ _ (List.getElem?_eq_getElem hr)
  exact absurd (published_lt (by rw [hp]; exact nofun)) (lt_irrefl _)

/-- Two owned positions in one slot are one position of one producer. -/
theorem Inv.owner_unique (h : Inv cap s) {p' : P} {q q' : Nat} (ho : Owns s p q)
    (ho' : Owns s p' q') (hi : cap.index q = cap.index q') : q = q' ∧ p = p' := by
  have hlt := ho.lt
  have hlt' := ho'.lt
  have hw := h.window
  have hq : q = q' := cap.index_inj (h.released_le_of_owns ho) (by omega)
    (h.released_le_of_owns ho') (by omega) hi
  subst hq
  have := ho.1.symm.trans ho'.1
  cases this
  exact ⟨rfl, rfl⟩

/-- A published position that is not released shares no slot with an owned one. -/
theorem Inv.published_not_owned (h : Inv cap s) {q q' : Nat} (ho : Owns s p q)
    (hq' : s.released ≤ q') (hp : s.published q' ≠ none) : cap.index q ≠ cap.index q' := by
  intro hi
  have hlt := ho.lt
  have hlt' := published_lt hp
  have hw := h.window
  have hq : q = q' := cap.index_inj (h.released_le_of_owns ho) (by omega) hq' (by omega) hi
  subst hq
  exact hp ho.published

/-! ## What others do to a thread's knowledge -/

omit [DecidableEq P] [Inhabited T] in
theorem ProducerInv.mono {pr : Producer T} (h : ProducerInv cap s p pr)
    (hc : s.claims.length ≤ s'.claims.length) (hr : s.released ≤ s'.released)
    (ho : ∀ q, Owns s p q → Owns s' p q ∧
      (s'.slots (cap.index q)).value = (s.slots (cap.index q)).value) :
    ProducerInv cap s' p pr := by
  cases pr with
  | loadSequence v q => exact le_trans h hc
  | swap v q => exact lt_of_lt_of_le h (Nat.add_le_add_right hr _)
  | write v q => exact (ho q h).1
  | publish q v | filling q v => exact ⟨(ho q h.1).1, (ho q h.1).2.trans h.2⟩
  | _ => trivial

omit [DecidableEq P] in
theorem ConsumerInv.mono {c : Consumer T} (h : ConsumerInv cap s c) (hr : s'.released = s.released)
    (hp : ∀ v, s.published s.released = some v → s'.published s.released = some v)
    (hv : s.published s.released ≠ none → (s'.slots (cap.index s.released)).value =
      (s.slots (cap.index s.released)).value) : ConsumerInv cap s' c := by
  have hn : s.published s.released ≠ none → s'.published s.released ≠ none := by
    intro hne
    obtain ⟨v, hv⟩ := Option.ne_none_iff_exists'.mp hne
    rw [hp v hv]
    exact nofun
  cases c with
  | loadSequence b q => exact h.trans hr.symm
  | read q | holding q =>
    obtain ⟨rfl, h2⟩ := h
    exact ⟨hr.symm, hn h2⟩
  | reload =>
    show s'.published s'.released ≠ none
    rw [hr]
    exact hn h
  | clear q v =>
    obtain ⟨rfl, h2⟩ := h
    exact ⟨hr.symm, hp v h2⟩
  | storeHead q v | storeSequence q v =>
    obtain ⟨rfl, h2, h3⟩ := h
    exact ⟨hr.symm, hp v h2, (hv (by rw [h2]; exact nofun)).trans h3⟩
  | _ => trivial

/-! ## The steps -/

theorem Inv.setProducer (h : Inv cap s) {pr : Producer T} (hp : ProducerInv cap s p pr) :
    Inv cap (s.setProducer p pr) where
  tail := h.tail
  head := h.head
  window := h.window
  sequence := h.sequence
  value := h.value
  vacant := h.vacant
  order := h.order
  sent := h.sent
  producers := (Function.forall_update_iff s.producers (ProducerInv cap s)).mpr
    ⟨hp, fun p' _ => h.producers p'⟩
  consumer := h.consumer

omit [DecidableEq P] [Inhabited T] in
theorem published_claim (position q : Nat) : (s.claim p position).published q = s.published q := by
  show (s.claims ++ [(p, none)])[q]?.bind Prod.snd = s.claims[q]?.bind Prod.snd
  rcases lt_trichotomy q s.claims.length with hq | rfl | hq
  · rw [List.getElem?_append_left hq]
  · simp
  · rw [List.getElem?_eq_none (by simp; omega), List.getElem?_eq_none (le_of_lt hq)]

omit [DecidableEq P] [Inhabited T] in
/-- The claim of one producer leaves what others own. -/
theorem Owns.claim {p' : P} {position q : Nat} (h : Owns s p' q) (hp : p' ≠ p) :
    Owns (s.claim p position) p' q := by
  refine ⟨?_, fun q' hq' => ?_⟩
  · show (s.claims ++ [(p, none)])[q]? = _
    rw [List.getElem?_append_left h.lt, h.1]
  · show (s.claims ++ [(p, none)])[q']?.map Prod.fst ≠ _
    rcases lt_trichotomy q' s.claims.length with hlt | rfl | hlt
    · rw [List.getElem?_append_left hlt]
      exact h.2 q' hq'
    · simpa using hp.symm
    · rw [List.getElem?_eq_none (by simp; omega)]
      rintro ⟨⟩

omit [DecidableEq P] [Inhabited T] in
/-- Who claims a position owns it. -/
theorem owns_claim {position : Nat} (hpos : position = s.claims.length) :
    Owns (s.claim p position) p position := by
  subst hpos
  refine ⟨?_, fun q' hq' => ?_⟩
  · show (s.claims ++ [(p, none)])[s.claims.length]? = _
    simp
  · show (s.claims ++ [(p, none)])[q']?.map Prod.fst ≠ _
    rw [List.getElem?_eq_none (by simp; omega)]
    rintro ⟨⟩

/-- The compare-and-swap of `tail`. -/
theorem Inv.claim (h : Inv cap s) {v : Option T} {position : Nat}
    (hpr : s.producers p = .swap v position) (hpos : s.tail = position)
    (hlt : position < 2 ^ 63) : Inv cap (s.claim p position) := by
  have hfree : position < s.released + cap.size := by
    have := h.producers p
    rw [hpr] at this
    exact this
  have hlen : position = s.claims.length := hpos.symm.trans h.tail
  have hlen' : (s.claim p position).claims.length = s.claims.length + 1 := by
    show (s.claims ++ [(p, none)]).length = _
    simp
  constructor
  · show add64 position 1 = _
    rw [add64_eq hlt (by decide), hlen', hlen]
  · exact h.head
  · rw [hlen']
    show s.claims.length + 1 ≤ s.released + cap.size
    omega
  · intro q hq hq'
    rw [published_claim]
    exact h.sequence q hq hq'
  · intro q v hq hv
    rw [published_claim] at hv
    exact h.value q v hq hv
  · intro q hq hq'
    rw [hlen'] at hq
    exact h.vacant q (by omega) hq'
  · intro j v hj
    rw [published_claim]
    exact h.order j v hj
  · intro p'
    show s.sent p' = (s.claims ++ [(p, none)]).filterMap _
    rw [List.filterMap_append, h.sent p']
    simp
  · intro p'
    by_cases hp : p' = p
    · subst hp
      show ProducerInv cap _ p' (s.producers p')
      rw [hpr]
      exact hfree
    · refine (h.producers p').mono ?_ (le_refl _) fun q ho => ⟨ho.claim hp, rfl⟩
      rw [hlen']
      exact Nat.le_succ _
  · exact h.consumer.mono rfl (fun v hv => by rw [published_claim]; exact hv) fun _ => rfl

section Slots

omit [DecidableEq P] [Inhabited T]

@[simp] theorem setValue_sequence (q i : Nat) (v : T) :
    ((s.setValue cap q v).slots i).sequence = (s.slots i).sequence := by
  show (Function.update s.slots _ _ i).sequence = _
  rw [Function.update_apply]
  split_ifs with hi
  · rw [hi]
  · rfl

theorem setValue_value (q i : Nat) (v : T) :
    ((s.setValue cap q v).slots i).value = if i = cap.index q then v else (s.slots i).value := by
  show (Function.update s.slots _ _ i).value = _
  rw [Function.update_apply]
  split_ifs <;> rfl

theorem setSequence_sequence (q i n : Nat) :
    ((s.setSequence cap q n).slots i).sequence =
      if i = cap.index q then n else (s.slots i).sequence := by
  show (Function.update s.slots _ _ i).sequence = _
  rw [Function.update_apply]
  split_ifs <;> rfl

@[simp] theorem setSequence_value (q i n : Nat) :
    ((s.setSequence cap q n).slots i).value = (s.slots i).value := by
  show (Function.update s.slots _ _ i).value = _
  rw [Function.update_apply]
  split_ifs with hi
  · rw [hi]
  · rfl

end Slots

/-- A producer fills the slot it owns. -/
theorem Inv.fill (h : Inv cap s) {q : Nat} (v : T) {pr : Producer T} (ho : Owns s p q)
    (hpr : pr = .publish q v ∨ pr = .filling q v) :
    Inv cap ((s.setValue cap q v).setProducer p pr) := by
  have hlt := ho.lt
  have hw := h.window
  have hr := h.released_le_of_owns ho
  have hsame : ∀ q', cap.index q' ≠ cap.index q →
      ((s.setValue cap q v).slots (cap.index q')).value = (s.slots (cap.index q')).value :=
    fun q' hi => by rw [setValue_value, if_neg hi]
  refine ⟨h.tail, h.head, h.window, fun q' hq hq' => ?_, fun q' v' hq hv' hcl => ?_,
    fun q' hq hq' => ?_, h.order, h.sent, ?_, ?_⟩
  · exact (setValue_sequence q (cap.index q') v).trans (h.sequence q' hq hq')
  · have hp : s.published q' = some v' := hv'
    have hne : s.published q' ≠ none := by rw [hp]; exact nofun
    exact (hsame q' (h.published_not_owned ho hq hne).symm).trans (h.value q' v' hq hp hcl)
  · have hq1 : s.claims.length ≤ q' := hq
    have hq2 : q' < s.released + cap.size := hq'
    refine (hsame q' fun hi => ?_).trans (h.vacant q' hq1 hq2)
    have := cap.index_inj (by omega) hq2 hr (by omega) hi
    omega
  · refine (Function.forall_update_iff s.producers
      (ProducerInv cap (s.setValue cap q v))).mpr ⟨?_, fun p' hp => ?_⟩
    · have hself : ((s.setValue cap q v).slots (cap.index q)).value = v := by
        rw [setValue_value, if_pos rfl]
      rcases hpr with rfl | rfl
      · exact ⟨ho, hself⟩
      · exact ⟨ho, hself⟩
    · exact (h.producers p').mono (le_refl _) (le_refl _) fun q' ho' =>
        ⟨ho', hsame q' fun hi => hp (h.owner_unique ho' ho hi).2⟩
  · exact h.consumer.mono rfl (fun _ hv => hv) fun hne =>
      hsame _ (h.published_not_owned ho (le_refl _) hne).symm

section Publish

variable {q : Nat} {v : T}

omit [Inhabited T] in
theorem published_publish (ho : Owns s p q) (q' : Nat) :
    (s.publish cap p q v).published q' = if q' = q then some v else s.published q' := by
  show (s.claims.set q (p, some v))[q']?.bind Prod.snd = _
  split_ifs with hq
  · subst hq
    rw [List.getElem?_set_self ho.lt]
    rfl
  · rw [List.getElem?_set_ne (Ne.symm hq)]
    rfl

omit [Inhabited T] in
/-- A publication leaves what others own. -/
theorem Owns.publish {p' : P} {q' : Nat} (ho : Owns s p q) (h : Owns s p' q') (hq : q' ≠ q) :
    Owns (s.publish cap p q v) p' q' := by
  refine ⟨?_, fun q'' hq'' => ?_⟩
  · show (s.claims.set q (p, some v))[q']? = _
    rw [List.getElem?_set_ne (Ne.symm hq), h.1]
  · show (s.claims.set q (p, some v))[q'']?.map Prod.fst ≠ _
    have hold := h.2 q'' hq''
    by_cases he : q'' = q
    · subst he
      rw [ho.1] at hold
      rw [List.getElem?_set_self ho.lt]
      exact hold
    · rwa [List.getElem?_set_ne (Ne.symm he)]

omit [Inhabited T] in
/-- The last claim of a producer is where its next value is published. -/
theorem filterMap_set_self {l : List (P × Option T)} (hq : l[q]? = some (p, none))
    (hlast : ∀ q', q < q' → l[q']?.map Prod.fst ≠ some p) :
    (l.set q (p, some v)).filterMap (fun c => if c.1 = p then c.2 else none) =
      l.filterMap (fun c => if c.1 = p then c.2 else none) ++ [v] := by
  induction l generalizing q with
  | nil => cases hq
  | cons c l ih =>
    cases q with
    | zero =>
      have hc : c = (p, none) := by simpa using hq
      have hnil : l.filterMap (fun c => if c.1 = p then c.2 else none) = [] := by
        rw [List.filterMap_eq_nil_iff]
        intro d hd
        obtain ⟨j, hj⟩ := List.mem_iff_getElem?.mp hd
        have := hlast (j + 1) (Nat.succ_pos j)
        rw [List.getElem?_cons_succ, hj] at this
        exact if_neg fun e => this (by rw [Option.map_some, e])
      subst hc
      simp [hnil]
    | succ q =>
      rw [List.getElem?_cons_succ] at hq
      have := ih hq fun q' hq' => by
        have := hlast (q' + 1) (Nat.succ_lt_succ hq')
        rwa [List.getElem?_cons_succ] at this
      rw [List.set_cons_succ, List.filterMap_cons, List.filterMap_cons, this]
      split <;> simp

omit [Inhabited T] in
/-- The publication of one producer does not concern another. -/
theorem filterMap_set_other {l : List (P × Option T)} {p' : P} (hq : l[q]? = some (p, none))
    (hp : p' ≠ p) :
    (l.set q (p, some v)).filterMap (fun c => if c.1 = p' then c.2 else none) =
      l.filterMap (fun c => if c.1 = p' then c.2 else none) := by
  induction l generalizing q with
  | nil => cases hq
  | cons c l ih =>
    cases q with
    | zero =>
      have hc : c = (p, none) := by simpa using hq
      subst hc
      simp [hp.symm]
    | succ q =>
      rw [List.getElem?_cons_succ] at hq
      rw [List.set_cons_succ, List.filterMap_cons, List.filterMap_cons, ih hq]

/-- A producer publishes the slot it has filled. -/
theorem Inv.publish (h : Inv cap s) (ho : Owns s p q)
    (hv : (s.slots (cap.index q)).value = v) (hlt : s.claims.length < 2 ^ 63) :
    Inv cap ((s.publish cap p q v).setProducer p .idle) := by
  have hq := ho.lt
  have hw := h.window
  have hr := h.released_le_of_owns ho
  have hlen : (s.publish cap p q v).claims.length = s.claims.length := List.length_set
  refine ⟨h.tail.trans hlen.symm, h.head, hlen.le.trans hw, ?_, ?_, ?_, ?_, ?_, ?_,
    ?_⟩
  · intro q' hq' hq2
    have hr' : s.released ≤ q' := hq'
    have hq2' : q' < s.released + cap.size := hq2
    show ((s.setSequence cap q (add64 q 1)).slots (cap.index q')).sequence =
      if (s.publish cap p q v).published q' = none then q' else q' + 1
    rw [published_publish ho, setSequence_sequence]
    by_cases he : q' = q
    · subst he
      rw [if_pos rfl, if_pos rfl, if_neg nofun, add64_eq (by omega) (by decide)]
    · rw [if_neg fun hi => he (cap.index_inj hr' hq2' hr (by omega) hi), if_neg he]
      exact h.sequence q' hr' hq2'
  · intro q' v' hq' hv' hcl
    refine (setSequence_value q _ _).trans ?_
    have hp : (s.publish cap p q v).published q' = some v' := hv'
    rw [published_publish ho] at hp
    split_ifs at hp with he
    · cases hp
      rw [he, hv]
    · exact h.value q' v' hq' hp hcl
  · intro q' hq' hq2
    refine (setSequence_value q _ _).trans (h.vacant q' ?_ hq2)
    exact hlen.symm.le.trans hq'
  · intro j w hj
    show (s.publish cap p q v).published j = some w
    rw [published_publish ho, if_neg, h.order j w hj]
    have hj' : j < s.released := (List.getElem?_eq_some_iff.mp hj).1
    omega
  · intro p'
    show Function.update s.sent p (s.sent p ++ [v]) p' = (s.claims.set q (p, some v)).filterMap _
    by_cases hp : p' = p
    · subst hp
      rw [Function.update_self, filterMap_set_self ho.1 ho.2, h.sent p']
    · rw [Function.update_of_ne hp, filterMap_set_other ho.1 hp, h.sent p']
  · refine (Function.forall_update_iff s.producers
      (ProducerInv cap (s.publish cap p q v))).mpr ⟨trivial, fun p' hp => ?_⟩
    refine (h.producers p').mono hlen.symm.le (le_refl _) fun q' ho' => ⟨?_, setSequence_value _ _ _⟩
    exact ho.publish ho' fun e => by subst e; exact hp (h.owner_unique ho' ho rfl).2
  · refine h.consumer.mono rfl (fun w hw => ?_) fun _ => setSequence_value _ _ _
    show (s.publish cap p q v).published s.released = some w
    rw [published_publish ho, if_neg, hw]
    rintro rfl
    rw [ho.published] at hw
    cases hw

end Publish

section Consume

/-- The consumer moves without touching shared memory. -/
theorem Inv.setConsumer (h : Inv cap s) {c : Consumer T} (hc : ConsumerInv cap s c)
    (hl : c.lag = s.consumer.lag) (hcl : s.consumer.cleared = true → c.cleared = true) :
    Inv cap { s with consumer := c } where
  tail := h.tail
  head := h.head.trans (congrArg _ hl.symm)
  window := h.window
  sequence := h.sequence
  value q v hq hv hn := h.value q v hq hv fun ⟨h1, h2⟩ => hn ⟨h1, hcl h2⟩
  vacant := h.vacant
  order := h.order
  sent := h.sent
  producers := h.producers
  consumer := hc

variable {v : T}

/-- The consumer clears the slot it has read. -/
theorem Inv.clear (h : Inv cap s) {q : Nat} (hc : s.consumer = .clear q v) :
    Inv cap { s.setValue cap q default with consumer := .storeHead q v } := by
  have hci := h.consumer
  rw [hc] at hci
  obtain ⟨rfl, hpub⟩ := hci
  have hne : s.published s.released ≠ none := by rw [hpub]; exact nofun
  have hlt := published_lt hne
  have hw := h.window
  have hsame : ∀ q', cap.index q' ≠ cap.index s.released →
      ((s.setValue cap s.released default).slots (cap.index q')).value =
        (s.slots (cap.index q')).value :=
    fun q' hi => by rw [setValue_value, if_neg hi]
  refine ⟨h.tail, ?_, h.window, fun q' hq hq' => ?_, fun q' v' hq hv' hcl => ?_,
    fun q' hq hq' => ?_, h.order, h.sent, fun p' => ?_, rfl, hpub, ?_⟩
  · have := h.head
    rw [hc] at this
    exact this
  · exact (setValue_sequence _ (cap.index q') _).trans (h.sequence q' hq hq')
  · have hq1 : s.released ≤ q' := hq
    have hp : s.published q' = some v' := hv'
    have hq2 : q' < s.claims.length := published_lt (by rw [hp]; exact nofun)
    have hne' : q' ≠ s.released := fun e => hcl ⟨e, rfl⟩
    refine (hsame q' fun hi => ?_).trans (h.value q' v' hq1 hp fun e => hne' e.1)
    exact hne' (cap.index_inj hq1 (by omega) (le_refl _) (by omega) hi)
  · have hq1 : s.claims.length ≤ q' := hq
    have hq2 : q' < s.released + cap.size := hq'
    show ((s.setValue cap s.released default).slots (cap.index q')).value = default
    rw [setValue_value]
    split_ifs
    · rfl
    · exact h.vacant q' hq1 hq2
  · exact (h.producers p').mono (le_refl _) (le_refl _) fun q' ho' =>
      ⟨ho', hsame q' (h.published_not_owned ho' (le_refl _) hne)⟩
  · show ((s.setValue cap s.released default).slots (cap.index s.released)).value = default
    rw [setValue_value, if_pos rfl]

/-- The consumer advances `head`. -/
theorem Inv.storeHead (h : Inv cap s) {q : Nat} (hc : s.consumer = .storeHead q v)
    (hlt : s.claims.length < 2 ^ 63) :
    Inv cap { s with head := add64 q 1, consumer := .storeSequence q v } := by
  have hci := h.consumer
  rw [hc] at hci
  obtain ⟨rfl, hpub, hval⟩ := hci
  have hq : s.released < s.claims.length := published_lt (by rw [hpub]; exact nofun)
  refine ⟨h.tail, add64_eq (by omega) (by decide), h.window, h.sequence, fun q' v' hq' hv' hcl => ?_,
    h.vacant, h.order, h.sent, h.producers, rfl, hpub, hval⟩
  refine h.value q' v' hq' hv' ?_
  rwa [hc]

/-- The consumer hands the slot back for the next lap. -/
theorem Inv.release (h : Inv cap s) {q : Nat} (hc : s.consumer = .storeSequence q v)
    (hlt : s.claims.length < 2 ^ 63) :
    Inv cap { s.release cap q v with consumer := .idle } := by
  have hci := h.consumer
  rw [hc] at hci
  obtain ⟨rfl, hpub, hval⟩ := hci
  have hq : s.released < s.claims.length := published_lt (by rw [hpub]; exact nofun)
  have hw := h.window
  have hsize := cap.size_lt
  have hrel : (s.release cap s.released v).released = s.released + 1 := by
    show (s.dequeued ++ [v]).length = _
    simp [State.released]
  have hadd : add64 s.released cap.size = s.released + cap.size := add64_eq (by omega) hsize
  refine ⟨h.tail, ?_, ?_, fun q' hq' hq2 => ?_, fun q' v' hq' hv' _ => ?_, fun q' hq' hq2 => ?_, ?_,
    h.sent, fun p' => ?_, trivial⟩
  · have := h.head
    rw [hc] at this
    exact this.trans hrel.symm
  · show s.claims.length ≤ (s.release cap s.released v).released + cap.size
    rw [hrel]
    omega
  · have hq1 : s.released + 1 ≤ q' := hrel ▸ hq'
    have hq2' : q' < s.released + 1 + cap.size := hrel ▸ hq2
    show ((s.setSequence cap s.released (add64 s.released cap.size)).slots
      (cap.index q')).sequence = if s.published q' = none then q' else q' + 1
    rw [setSequence_sequence]
    by_cases he : q' = s.released + cap.size
    · -- the slot of the next lap, which nobody can have claimed
      have hnone : s.published q' = none := by
        by_contra hne
        have := published_lt hne
        omega
      rw [he, cap.index_add_size, if_pos rfl, ← he, if_pos hnone, hadd, he]
    · rw [if_neg fun hi => ?_]
      · exact h.sequence q' (by omega) (by omega)
      · have := cap.index_inj (by omega) (by omega) (le_refl _) (by omega) hi
        omega
  · have hq1 : s.released + 1 ≤ q' := hrel ▸ hq'
    exact (setSequence_value _ _ _).trans
      (h.value q' v' (by omega) hv' fun e => by omega)
  · have hq2' : q' < s.released + 1 + cap.size := hrel ▸ hq2
    refine (setSequence_value _ _ _).trans ?_
    by_cases he : q' = s.released + cap.size
    · rw [he, cap.index_add_size, hval]
    · exact h.vacant q' hq' (by omega)
  · intro j w hj
    show s.published j = some w
    rcases lt_trichotomy j s.released with hj' | rfl | hj'
    · refine h.order j w ?_
      rw [← hj]
      exact (List.getElem?_append_left hj').symm
    · have : (s.dequeued ++ [v])[s.dequeued.length]? = some w := hj
      rw [List.getElem?_concat_length] at this
      rw [hpub, this]
    · have : (s.dequeued ++ [v])[j]? = some w := hj
      rw [List.getElem?_eq_none (by simp [State.released] at hj' ⊢; omega)] at this
      cases this
  · refine (h.producers p').mono (le_refl _) ?_ fun q' ho' => ⟨ho', setSequence_value _ _ _⟩
    show s.released ≤ (s.release cap s.released v).released
    rw [hrel]
    exact Nat.le_succ _

end Consume

end Invariant

end RedLease.MpscRing
