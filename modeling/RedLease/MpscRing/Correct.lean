import RedLease.MpscRing.Invariant

/-!
# What the ring guarantees

* **`step_inv`**: every step keeps the invariant, as long as fewer than `2^63` positions are claimed.
* **`ring_correct`**: values come out first in, first out in the order of the claims, with no loss
  and no stale value, and each producer's in its program order; a call reports a full ring only when
  `capacity` claimed positions are not released, and an empty one only when the head position is not
  published; and a slot is written by nobody but its owner.
-/

namespace RedLease.MpscRing

open Lib

section Guarantees

variable {P T : Type} [DecidableEq P] [Inhabited T] {cap : Capacity} {s s' : State P T} {p : P}

/-! ## What the sequence of a slot tells -/

/-- A slot whose sequence is the loaded position is free for it. -/
theorem Inv.free_of_sequence (h : Inv cap s) {q : Nat} (hq : q ≤ s.claims.length)
    (hs : (s.slots (cap.index q)).sequence = q) : q < s.released + cap.size := by
  have hw := h.window
  have htwo := cap.two_le
  by_contra hge
  have he : q = s.released + cap.size := by omega
  have := h.sequence s.released (le_refl _) (by omega)
  rw [he, cap.index_add_size, this] at hs
  split_ifs at hs <;> omega

/-- A slot whose sequence is behind the loaded position is not released yet for the lap before. -/
theorem Inv.full_of_sequence (h : Inv cap s) {q : Nat} (hq : q ≤ s.claims.length)
    (hs : (s.slots (cap.index q)).sequence < q) : s.released + cap.size ≤ s.claims.length := by
  obtain ⟨q', hr, hlt, hi⟩ := cap.exists_in_window q s.released
  have hseq := h.sequence q' hr hlt
  rw [hi] at hseq
  have hq' : q' < q := by split_ifs at hseq <;> omega
  by_contra hge
  have := cap.index_inj hr hlt (by omega) (by omega) hi
  omega

/-- At the head, the sequence tells whether the position is published. -/
theorem Inv.sequence_released (h : Inv cap s) (hlt : s.claims.length < 2 ^ 63) :
    (s.slots (cap.index s.released)).sequence = add64 s.released 1 ↔
      s.published s.released ≠ none := by
  have htwo := cap.two_le
  have := h.released_le
  rw [h.sequence s.released (le_refl _) (by omega), add64_eq (by omega) (by decide)]
  split_ifs with hp
  · simp [hp]
  · simp [hp]

/-! ## Runs -/

theorem inv_init : Inv cap (State.init : State P T) where
  tail := rfl
  head := rfl
  window := Nat.zero_le _
  sequence q hq hlt := by
    have hlt' : q < cap.size := by simpa [State.init, State.released] using hlt
    show cap.index q = if (none : Option T) = none then q else q + 1
    rw [if_pos rfl, cap.index_eq, Nat.mod_eq_of_lt hlt']
  value q v _ hv := by cases hv
  vacant _ _ _ := rfl
  order j v hj := by cases hj
  sent _ := rfl
  producers _ := trivial
  consumer := trivial

theorem produce_inv (h : Inv cap s) (hs : produce cap s p = some s')
    (hlt : s.claims.length < 2 ^ 63) : Inv cap s' := by
  have hp := h.producers p
  unfold produce at hs
  split at hs
  · cases hs
    exact h.setProducer (le_of_eq h.tail)
  · rename_i value position hpr
    rw [hpr] at hp
    dsimp only at hs
    split_ifs at hs with h1 h2
    · cases hs
      exact h.setProducer (h.free_of_sequence hp h1)
    · cases hs
      exact h.setProducer trivial
    · cases hs
      exact h.setProducer trivial
  · rename_i value position hpr
    split_ifs at hs with htail
    · have hpos : position = s.claims.length := htail.symm.trans h.tail
      have hc := h.claim hpr htail (by omega)
      have ho : Owns (s.claim p position) p position := owns_claim hpos
      cases value with
      | some v =>
        cases hs
        exact hc.setProducer ho
      | none =>
        cases hs
        refine hc.setProducer ⟨ho, h.vacant position (le_of_eq hpos.symm) ?_⟩
        rw [hpr] at hp
        exact hp
    · cases hs
      exact h.setProducer trivial
  · rename_i value position hpr
    rw [hpr] at hp
    cases hs
    exact h.fill value hp (Or.inl rfl)
  · rename_i position content hpr
    rw [hpr] at hp
    cases hs
    exact h.publish hp.1 hp.2 hlt
  · cases hs

theorem consume_inv (h : Inv cap s) (hs : consume cap s = some s')
    (hlt : s.claims.length < 2 ^ 63) : Inv cap s' := by
  have hc := h.consumer
  have hhead := h.head
  unfold consume at hs
  split at hs
  · rename_i inPlace hpc
    rw [hpc] at hhead
    cases hs
    exact h.setConsumer hhead (by rw [hpc]; rfl) (by rw [hpc]; exact nofun)
  · rename_i inPlace position hpc
    rw [hpc] at hc
    have hq : position = s.released := hc
    subst hq
    split_ifs at hs with hseq hin
    · cases hs
      exact h.setConsumer trivial (by rw [hpc]; rfl) (by rw [hpc]; exact nofun)
    · cases hs
      exact h.setConsumer ⟨rfl, (h.sequence_released hlt).mp (not_not.mp hseq)⟩ (by rw [hpc]; rfl)
        (by rw [hpc]; exact nofun)
    · cases hs
      exact h.setConsumer ⟨rfl, (h.sequence_released hlt).mp (not_not.mp hseq)⟩ (by rw [hpc]; rfl)
        (by rw [hpc]; exact nofun)
  · rename_i position hpc
    rw [hpc] at hc
    obtain ⟨rfl, hne⟩ := hc
    obtain ⟨v, hv⟩ := Option.ne_none_iff_exists'.mp hne
    cases hs
    refine h.setConsumer ⟨rfl, ?_⟩ (by rw [hpc]; rfl) (by rw [hpc]; exact nofun)
    rw [h.value _ v (le_refl _) hv (by rw [hpc]; exact fun e => nomatch e.2), hv]
  · rename_i hpc
    rw [hpc] at hc hhead
    have hq : s.head = s.released := hhead
    obtain ⟨v, hv⟩ := Option.ne_none_iff_exists'.mp hc
    cases hs
    refine h.setConsumer ⟨hq, ?_⟩ (by rw [hpc]; rfl) (by rw [hpc]; exact nofun)
    rw [hq, h.value _ v (le_refl _) hv (by rw [hpc]; exact fun e => nomatch e.2), hv]
  · rename_i position value hpc
    cases hs
    exact h.clear hpc
  · rename_i position value hpc
    cases hs
    exact h.storeHead hpc hlt
  · rename_i position value hpc
    cases hs
    exact h.release hpc hlt
  · cases hs

omit [DecidableEq P] in
theorem consume_claims (hs : consume cap s = some s') : s'.claims = s.claims := by
  unfold consume at hs
  split at hs
  all_goals first
    | cases hs; rfl
    | (split_ifs at hs <;> (cases hs; rfl))
    | cases hs

theorem produce_claims_le (hs : produce cap s p = some s') :
    s.claims.length ≤ s'.claims.length := by
  unfold produce at hs
  split at hs
  · cases hs; exact le_refl _
  · dsimp only at hs
    split_ifs at hs <;> (cases hs; exact le_refl _)
  · rename_i value position hpr
    have hclaim : s.claims.length ≤ (s.claim p position).claims.length := by
      simp [State.claim]
    split_ifs at hs
    · cases value with
      | some v | none => cases hs; exact hclaim
    · cases hs; exact le_refl _
  · cases hs; exact le_refl _
  · cases hs; exact le_of_eq List.length_set.symm
  · cases hs

/-- Claims are never taken back. -/
theorem step_claims_le {a : Act P T} (hs : step cap s a = some s') :
    s.claims.length ≤ s'.claims.length := by
  cases a with
  | produce p => exact produce_claims_le hs
  | consume => rw [consume_claims hs]
  | finishEnqueue p =>
    simp only [step] at hs
    split at hs
    · cases hs; exact le_of_eq List.length_set.symm
    · cases hs
  | _ =>
    simp only [step] at hs
    split at hs
    all_goals cases hs; try exact le_refl _

/-- **Every step keeps the invariant**, while the counters have not wrapped. -/
theorem step_inv {a : Act P T} (h : Inv cap s) (hs : step cap s a = some s')
    (hlt : s'.claims.length < 2 ^ 63) : Inv cap s' := by
  have hlt' : s.claims.length < 2 ^ 63 := lt_of_le_of_lt (step_claims_le hs) hlt
  cases a with
  | tryEnqueue p value | tryStartEnqueue p =>
    simp only [step] at hs
    split at hs
    all_goals cases hs; try exact h.setProducer trivial
  | produce p => exact produce_inv h hs hlt'
  | fill p value =>
    simp only [step] at hs
    split at hs
    · rename_i position content hpr
      have hp := h.producers p
      rw [hpr] at hp
      cases hs
      exact h.fill value hp.1 (Or.inr rfl)
    · cases hs
  | finishEnqueue p =>
    simp only [step] at hs
    split at hs
    · rename_i position content hpr
      have hp := h.producers p
      rw [hpr] at hp
      cases hs
      exact h.publish hp.1 hp.2 hlt'
    · cases hs
  | tryDequeue | tryStartDequeue =>
    simp only [step] at hs
    split at hs
    · rename_i hpc
      cases hs; exact h.setConsumer trivial (by rw [hpc]; rfl) (by rw [hpc]; exact nofun)
    · rename_i hpc
      cases hs; exact h.setConsumer trivial (by rw [hpc]; rfl) (by rw [hpc]; exact nofun)
    · cases hs
  | finishDequeue =>
    simp only [step] at hs
    split at hs
    · rename_i position hpc
      have hc := h.consumer
      rw [hpc] at hc
      obtain ⟨rfl, hne⟩ := hc
      cases hs
      exact h.setConsumer hne (by rw [hpc]; rfl) (by rw [hpc]; exact nofun)
    · cases hs
  | consume => exact consume_inv h hs hlt'

/-- The invariant at the end of a run without a wrap of the counters. -/
theorem inv_of_exec {acts : List (Act P T)}
    (h : Trans.exec (step cap) State.init acts = some s) (hlt : s.claims.length < 2 ^ 63) :
    Inv cap s :=
  Trans.exec_invariant (I := fun s => s.claims.length < 2 ^ 63 → Inv cap s)
    (fun hi hs hlt => step_inv (hi (lt_of_le_of_lt (step_claims_le hs) hlt)) hs hlt)
    (fun _ => inv_init) h hlt

/-! ## What the ring guarantees -/

/-- The dequeued values that came from producer `p`. -/
def State.dequeuedFrom (s : State P T) (p : P) : List T :=
  (s.dequeued.zip s.claims).filterMap fun e => if e.2.1 = p then some e.1 else none

/-- The position whose slot a producer owns: from its claim to its publication. -/
def Producer.owned : Producer T → Option Nat
  | .write _ q | .publish q _ | .filling q _ => some q
  | _ => none

/-- The position whose slot the consumer owns: from the load that found it published to its
release. -/
def State.consumerOwned (s : State P T) : Option Nat :=
  match s.consumer with
  | .read q | .holding q | .clear q _ | .storeHead q _ | .storeSequence q _ => some q
  | .reload => some s.head
  | _ => none

/-- The producer whose step writes the value field of a slot, and the slot. -/
def Act.writes (cap : Capacity) (s : State P T) : Act P T → Option (P × Nat)
  | .produce p =>
    match s.producers p with
    | .write _ q => some (p, cap.index q)
    | _ => none
  | .fill p _ =>
    match s.producers p with
    | .filling q _ => some (p, cap.index q)
    | _ => none
  | _ => none

/-- What the ring guarantees, as seen in a state `s` of it. -/
structure Correct (cap : Capacity) (s : State P T) : Prop where
  /-- The dequeued values are the enqueued ones in the order of their claims, up to some point. -/
  fifo : s.dequeued.map some <+: s.claims.map Prod.snd
  /-- Those of each producer come out in its program order. -/
  program_order : ∀ p, s.dequeuedFrom p <+: s.sent p
  /-- What the consumer sees through the pointer of `tryStartDequeue` is the next value. -/
  in_place : ∀ q, s.consumer = .holding q →
    (s.claims.map Prod.snd)[s.dequeued.length]? = some (some (s.slots (cap.index q)).value)
  /-- When a call finds the ring full, `capacity` claimed positions are not released. -/
  full : ∀ p s', step cap s (.produce p) = some s' → s'.producers p = .full →
    s.dequeued.length + cap.size ≤ s.claims.length
  /-- When a call finds the ring empty, the head position is not published. -/
  empty : ∀ s', step cap s .consume = some s' → s'.consumer = .empty →
    s.published s.head = none
  /-- The slot a producer writes to is owned by no other producer and not by the consumer. -/
  owner : ∀ a p i, Act.writes cap s a = some (p, i) →
    (∀ p' q, p' ≠ p → (s.producers p').owned = some q → cap.index q ≠ i) ∧
    (∀ q, s.consumerOwned = some q → cap.index q ≠ i)

omit [Inhabited T] in
/-- The dequeued values of one producer, from the claims. -/
theorem zip_filterMap {ds : List T} {cs : List (P × Option T)} (p : P)
    (h : ∀ (j : Nat) v, ds[j]? = some v → cs[j]?.bind Prod.snd = some v) :
    (ds.zip cs).filterMap (fun e => if e.2.1 = p then some e.1 else none) =
      (cs.take ds.length).filterMap fun c => if c.1 = p then c.2 else none := by
  induction ds generalizing cs with
  | nil => simp
  | cons d ds ih =>
    cases cs with
    | nil => cases h 0 d rfl
    | cons c cs =>
      have hc : c.2 = some d := h 0 d rfl
      have := @ih cs fun j v hj => h (j + 1) v hj
      rw [List.zip_cons_cons, List.length_cons, List.take_succ_cons, List.filterMap_cons,
        List.filterMap_cons, this, hc]

theorem Inv.owns_of_owned (h : Inv cap s) {q : Nat} (ho : (s.producers p).owned = some q) :
    Owns s p q := by
  have hp := h.producers p
  cases hpr : s.producers p with
  | write v q' => rw [hpr] at hp ho; cases ho; exact hp
  | publish q' v | filling q' v => rw [hpr] at hp ho; cases ho; exact hp.1
  | _ => rw [hpr] at ho; cases ho

theorem Inv.consumerOwned (h : Inv cap s) {q : Nat} (ho : s.consumerOwned = some q) :
    q = s.released ∧ s.published q ≠ none := by
  have hc := h.consumer
  have hhead := h.head
  unfold State.consumerOwned at ho
  cases hpc : s.consumer with
  | read q' | holding q' => rw [hpc] at hc ho; cases ho; exact hc
  | reload =>
    rw [hpc] at hc hhead ho
    cases ho
    have he : s.head = s.released := hhead
    exact ⟨he, he ▸ hc⟩
  | clear q' v => rw [hpc] at hc ho; cases ho; exact ⟨hc.1, by rw [hc.2]; exact nofun⟩
  | storeHead q' v | storeSequence q' v =>
    rw [hpc] at hc ho; cases ho; exact ⟨hc.1, by rw [hc.2.1]; exact nofun⟩
  | _ => rw [hpc] at ho; cases ho

omit [DecidableEq P] [Inhabited T] in
/-- Who writes a slot owns it. -/
theorem owned_of_writes {a : Act P T} {i : Nat} (h : Act.writes cap s a = some (p, i)) :
    ∃ q, (s.producers p).owned = some q ∧ cap.index q = i := by
  cases a with
  | produce p' =>
    simp only [Act.writes] at h
    split at h
    · rename_i v q hpr
      cases h
      exact ⟨q, by rw [hpr]; rfl, rfl⟩
    · cases h
  | fill p' v =>
    simp only [Act.writes] at h
    split at h
    · rename_i q v hpr
      cases h
      exact ⟨q, by rw [hpr]; rfl, rfl⟩
    · cases h
  | _ => cases h

/-- A call that reports a full ring has just loaded a sequence behind its position. -/
theorem produce_full (hs : produce cap s p = some s') (hfull : s'.producers p = .full) :
    ∃ v q, s.producers p = .loadSequence v q ∧ (s.slots (cap.index q)).sequence < q := by
  have hset : ∀ {r : State P T} {pr : Producer T}, (r.setProducer p pr).producers p = pr :=
    Function.update_self _ _ _
  unfold produce at hs
  split at hs
  · cases hs; rw [hset] at hfull; cases hfull
  · rename_i v q hpr
    dsimp only at hs
    split_ifs at hs with h1 h2
    · cases hs; rw [hset] at hfull; cases hfull
    · exact ⟨v, q, hpr, h2⟩
    · cases hs; rw [hset] at hfull; cases hfull
  · rename_i v q hpr
    split_ifs at hs
    · cases v with
      | some v | none => cases hs; rw [hset] at hfull; cases hfull
    · cases hs; rw [hset] at hfull; cases hfull
  · cases hs; rw [hset] at hfull; cases hfull
  · cases hs; rw [hset] at hfull; cases hfull
  · cases hs

omit [DecidableEq P] in
/-- A call that reports an empty ring has just loaded a sequence that does not publish its
position. -/
theorem consume_empty (hs : consume cap s = some s') (hempty : s'.consumer = .empty) :
    ∃ b q, s.consumer = .loadSequence b q ∧
      (s.slots (cap.index q)).sequence ≠ add64 q 1 := by
  unfold consume at hs
  split at hs
  · cases hs; cases hempty
  · rename_i b q hpc
    split_ifs at hs with hseq
    · exact ⟨b, q, hpc, hseq⟩
    · cases hs; cases hempty
    · cases hs; cases hempty
  · cases hs; cases hempty
  · cases hs; cases hempty
  · cases hs; cases hempty
  · cases hs; cases hempty
  · cases hs; cases hempty
  · cases hs

/-- **The ring is a first-in, first-out queue** of bounded capacity, for any number of producers and
under every sequentially consistent interleaving with fewer than `2^63` enqueues. -/
theorem ring_correct (cap : Capacity) (acts : List (Act P T)) {s : State P T}
    (h : Trans.exec (step cap) State.init acts = some s) (hlt : s.claims.length < 2 ^ 63) :
    Correct cap s := by
  have hi := inv_of_exec h hlt
  constructor
  · rw [List.prefix_iff_getElem?]
    intro j hj
    rw [List.length_map] at hj
    have := hi.order j _ (List.getElem?_eq_getElem hj)
    rw [State.published, Option.bind_eq_some_iff] at this
    obtain ⟨c, hc, hv⟩ := this
    rw [List.getElem?_map, hc, List.getElem_map, Option.map_some, hv]
  · intro p
    rw [State.dequeuedFrom, zip_filterMap p hi.order, hi.sent p]
    exact (List.take_prefix _ _).filterMap _
  · intro q hq
    have hc := hi.consumer
    rw [hq] at hc
    obtain ⟨rfl, hne⟩ := hc
    obtain ⟨v, hv⟩ := Option.ne_none_iff_exists'.mp hne
    rw [hi.value _ v (le_refl _) hv (by rw [hq]; rintro ⟨-, ⟨⟩⟩)]
    rw [State.published, Option.bind_eq_some_iff] at hv
    obtain ⟨c, hc, hv⟩ := hv
    show (s.claims.map Prod.snd)[s.released]? = _
    rw [List.getElem?_map, hc, Option.map_some, hv]
  · intro p s' hs hfull
    obtain ⟨v, q, hpr, hseq⟩ := produce_full hs hfull
    have hp := hi.producers p
    rw [hpr] at hp
    exact hi.full_of_sequence hp hseq
  · intro s' hs hempty
    obtain ⟨b, q, hpc, hseq⟩ := consume_empty hs hempty
    have hc := hi.consumer
    have hhead := hi.head
    rw [hpc] at hc hhead
    have hq : q = s.released := hc
    have hh : s.head = s.released := hhead
    rw [hq] at hseq
    rw [hh]
    by_contra hne
    exact hseq ((hi.sequence_released hlt).mpr hne)
  · intro a p i hw
    obtain ⟨q, hq, rfl⟩ := owned_of_writes hw
    have ho := hi.owns_of_owned hq
    constructor
    · intro p' q' hp hq' hidx
      exact hp (hi.owner_unique (hi.owns_of_owned hq') ho hidx).2
    · intro q' hq' hidx
      obtain ⟨rfl, hne⟩ := hi.consumerOwned hq'
      exact hi.published_not_owned ho (le_refl _) hne hidx.symm

end Guarantees

/-- A ring of two slots. -/
def pairCapacity : Capacity := ⟨2, ⟨1, rfl⟩, le_refl _, by decide⟩

/-- One producer enqueues 7 and another fills 8 in place; the consumer takes the first value, and
the first producer begins to enqueue 9. -/
def pairActs : List (Act Bool Nat) :=
  [.tryEnqueue true 7, .produce true, .tryStartEnqueue false, .produce true, .produce true,
    .produce false, .produce false, .produce false, .fill false 8, .produce true, .produce true,
    .finishEnqueue false, .tryDequeue, .consume, .consume, .consume, .consume, .consume, .consume,
    .tryEnqueue true 9, .produce true, .produce true]

theorem ring_correct_pairActs :
    ∃ s, Trans.exec (step pairCapacity) State.init pairActs = some s ∧ Correct pairCapacity s ∧
      s.dequeued = [7] ∧ s.claims = [(true, some 7), (false, some 8)] :=
  ⟨_, rfl, ring_correct pairCapacity pairActs rfl (by decide), rfl, rfl⟩

end RedLease.MpscRing
