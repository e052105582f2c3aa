import RedLease.MpscRing.Notifying

/-!
# The length of a ring

`Len` loads `tail` and then `head`, two accesses between which the ring can move, and subtracts as
`uint64`; `MetricsSnapshot` of `server/metrics.go` adds up the lengths of the queues of all shards.
Here a goroutine takes such snapshots of `n` rings while their producers and consumers go on.

The length is between zero and the capacity exactly if `head` has not passed the loaded `tail`
meanwhile (**`len_of_unpassed`**, `Reading.len_cases`). Nothing keeps it from doing so:
`overtakenActs` enqueues and dequeues one value between the two loads, and the length is then
`2^64 - 1` (`len_wraps`).
-/

namespace RedLease.MpscRing

open Lib

/-- Subtraction in `uint64`. -/
def sub64 (a b : Nat) : Nat := (a + 2 ^ 64 - b) % 2 ^ 64

/-- The queues of all shards, and the goroutine that takes a snapshot of them. -/
structure Metrics (n : Nat) (P T : Type) where
  shards : Fin n → Notifying P T
  /-- What `Len` has returned for the first shards. -/
  lens : List Nat
  /-- The `tail` that the call of `Len` in progress has loaded. -/
  loaded : Option Nat
  /-- `MetricsSnapshot.QueuedOperations` of the snapshots so far. -/
  snapshots : List Nat

/-- A step of a shard, or of the snapshot. -/
inductive MetricsAct (n : Nat) (P T : Type) where
  | shard (i : Fin n) (a : NotifyingAct P T)
  | loadTail
  | loadHead
  /-- The lengths of all shards are there, and the snapshot is complete. -/
  | complete

section Model

variable {n : Nat} {P T : Type} [DecidableEq P] [Inhabited T]

namespace Metrics

variable (s : Metrics n P T)

/-- The rings are empty. -/
def init : Metrics n P T where
  shards _ := .init
  lens := []
  loaded := none
  snapshots := []

/-- The sum of `queuedOperations`. -/
def queuedOperations (lens : List Nat) : Nat := lens.foldl add64 0

/-- One step; the snapshot loads `tail` and then `head` of each shard. -/
def step (cap : Capacity) (s : Metrics n P T) : MetricsAct n P T → Option (Metrics n P T)
  | .shard i a =>
    (Notifying.step cap (s.shards i) a).map fun shard =>
      { s with shards := Function.update s.shards i shard }
  | .loadTail =>
    if h : s.lens.length < n then
      match s.loaded with
      | none => some { s with loaded := some (s.shards ⟨s.lens.length, h⟩).ring.tail }
      | some _ => none
    else none
  | .loadHead =>
    if h : s.lens.length < n then
      match s.loaded with
      | some tail =>
        some { s with
          lens := s.lens ++ [sub64 tail (s.shards ⟨s.lens.length, h⟩).ring.head]
          loaded := none }
      | none => none
    else none
  | .complete =>
    if s.lens.length = n then
      some { s with snapshots := s.snapshots ++ [queuedOperations s.lens], lens := [] }
    else none

/-- The access, if it is the load of `head` in a call of `Len`, finds that `head` has not passed the
loaded `tail`. -/
def Unpassed (s : Metrics n P T) : MetricsAct n P T → Prop
  | .loadHead => ∀ (h : s.lens.length < n), ∀ tail ∈ s.loaded,
      (s.shards ⟨s.lens.length, h⟩).ring.head ≤ tail
  | _ => True

instance (s : Metrics n P T) : (a : MetricsAct n P T) → Decidable (s.Unpassed a)
  | .loadHead => inferInstanceAs (Decidable (∀ _ : s.lens.length < n, ∀ tail ∈ s.loaded, _))
  | .shard _ _ | .loadTail | .complete => .isTrue trivial

end Metrics

end Model

section Length

variable {n : Nat} {P T : Type} [DecidableEq P] [Inhabited T] {cap : Capacity}

/-! ## The rings -/

namespace Notifying

variable {s s' : Notifying P T}

/-- The ring keeps its invariant, and who waits has found it empty. -/
structure Sound (cap : Capacity) (s : Notifying P T) : Prop where
  ring : Inv cap s.ring
  waiting : s.waiting = true → s.ring.consumer = .empty

theorem sound_init : Sound cap (init : Notifying P T) where
  ring := inv_init
  waiting h := by cases h

/-- A consumer that rests can begin anew. -/
theorem Sound.restart (h : s.Sound cap) (hc : s.ring.consumer.resting = true) (ready : Bool) :
    Sound cap { s.restart with ready } where
  ring := by
    have hlag : s.ring.consumer.lag = 0 ∧ s.ring.consumer.cleared = false := by
      revert hc
      cases s.ring.consumer <;> simp [Consumer.resting, Consumer.lag, Consumer.cleared]
    exact h.ring.setConsumer trivial hlag.1.symm fun hcleared => by
      rw [hlag.2] at hcleared
      cases hcleared
  waiting hw := by cases hw

theorem claims_le_of_step {a : NotifyingAct P T} (hs : step cap s a = some s') :
    s.ring.claims.length ≤ s'.ring.claims.length := by
  cases a with
  | ring a =>
    simp only [step] at hs
    split_ifs at hs
    obtain ⟨ring, hring, rfl⟩ := Option.map_eq_some_iff.mp hs
    exact step_claims_le hring
  | wait =>
    simp only [step] at hs
    split at hs
    · split_ifs at hs
      cases hs
      exact le_refl _
    · cases hs
  | signal p | receive | replace =>
    simp only [step] at hs
    split_ifs at hs
    cases hs
    exact le_refl _

theorem Sound.after_step (h : s.Sound cap) {a : NotifyingAct P T} (hs : step cap s a = some s')
    (hlt : s'.ring.claims.length < 2 ^ 63) : s'.Sound cap := by
  cases a with
  | ring a =>
    simp only [step] at hs
    split_ifs at hs with hfree
    obtain ⟨ring, hring, rfl⟩ := Option.map_eq_some_iff.mp hs
    refine ⟨step_inv h.ring hring hlt, fun hw => ?_⟩
    cases hp : a.producer with
    | some p =>
      rw [(step_aside hp hring).consumer]
      exact h.waiting hw
    | none =>
      have hw' : s.waiting = true := hw
      simp [free, hp, hw'] at hfree
  | signal p =>
    simp only [step] at hs
    split_ifs at hs
    cases hs
    exact ⟨h.ring, h.waiting⟩
  | wait =>
    simp only [step] at hs
    split at hs
    · rename_i hc
      split_ifs at hs
      cases hs
      exact ⟨h.ring, fun _ => hc⟩
    · cases hs
  | receive =>
    simp only [step] at hs
    split_ifs at hs with hready
    cases hs
    refine h.restart ?_ false
    rw [h.waiting (Bool.and_eq_true_iff.mp hready).1]
    rfl
  | replace =>
    simp only [step] at hs
    split_ifs at hs with hc
    cases hs
    exact h.restart hc s.ready

/-- `head` is between `tail` and the capacity behind it. -/
theorem Sound.head_tail (h : s.Sound cap) :
    s.ring.head ≤ s.ring.tail ∧ s.ring.tail ≤ s.ring.head + cap.size := by
  have hhead := h.ring.head
  have htail := h.ring.tail
  have hwindow := h.ring.window
  have hle : s.ring.head ≤ s.ring.claims.length := by
    cases hc : s.ring.consumer with
    | storeSequence q v =>
      -- the position that is being handed back was published
      have hcons := h.ring.consumer
      rw [hc] at hcons hhead
      obtain ⟨rfl, hpub, -⟩ := hcons
      have hlt := published_lt (by rw [hpub]; exact nofun : s.ring.published s.ring.released ≠ none)
      have hlag : s.ring.head = s.ring.released + 1 := hhead
      omega
    | _ =>
      rw [hc] at hhead
      have hlag : s.ring.head = s.ring.released := hhead
      have hreleased := h.ring.released_le
      omega
  omega

end Notifying

/-! ## The snapshot -/

/-- The difference is exact if nothing was passed, and otherwise larger than any capacity. -/
theorem sub64_cases {tail head : Nat} (hcap : tail ≤ head + cap.size) (hhead : head < 2 ^ 63) :
    head ≤ tail ∧ sub64 tail head = tail - head ∧ tail - head ≤ cap.size ∨
      tail < head ∧ cap.size < sub64 tail head := by
  have hsize := cap.size_lt
  unfold sub64
  rcases Nat.lt_or_ge tail head with hlt | hge
  · refine Or.inr ⟨hlt, ?_⟩
    omega
  · refine Or.inl ⟨hge, ?_, ?_⟩
    · omega
    · omega

/-- The sum, wrapped or not, is at most the sum of the bounds. -/
theorem queuedOperations_le {bound : Nat} {lens : List Nat} (h : ∀ len ∈ lens, len ≤ bound) :
    Metrics.queuedOperations lens ≤ lens.length * bound := by
  have hfold : ∀ (lens : List Nat) (acc : Nat), (∀ len ∈ lens, len ≤ bound) →
      lens.foldl add64 acc ≤ acc + lens.length * bound := by
    intro lens
    induction lens with
    | nil => intro acc _; simp
    | cons len rest ih =>
      intro acc hle
      rw [List.foldl_cons, List.length_cons]
      have hrest := ih (add64 acc len) fun len' hlen' => hle len' (List.mem_cons_of_mem _ hlen')
      have hadd : add64 acc len ≤ acc + len := Nat.mod_le _ _
      have hlen := hle len List.mem_cons_self
      rw [Nat.add_mul, Nat.one_mul]
      omega
  have hzero := hfold lens 0 h
  rwa [Nat.zero_add] at hzero

namespace Metrics

variable {s s' : Metrics n P T}

/-- What the snapshot knows. -/
structure Reading (cap : Capacity) (s : Metrics n P T) : Prop where
  shards : ∀ i, (s.shards i).Sound cap
  loaded : ∀ tail, s.loaded = some tail →
    ∃ h : s.lens.length < n, tail ≤ (s.shards ⟨s.lens.length, h⟩).ring.tail

theorem reading_init : Reading cap (init : Metrics n P T) where
  shards _ := Notifying.sound_init
  loaded _ h := by cases h

theorem claims_le {a : MetricsAct n P T} (hs : step cap s a = some s') (i : Fin n) :
    (s.shards i).ring.claims.length ≤ (s'.shards i).ring.claims.length := by
  cases a with
  | shard j a =>
    obtain ⟨shard, hshard, rfl⟩ := Option.map_eq_some_iff.mp hs
    show _ ≤ (Function.update s.shards j shard i).ring.claims.length
    by_cases hij : i = j
    · subst hij
      rw [Function.update_self]
      exact Notifying.claims_le_of_step hshard
    · rw [Function.update_of_ne hij]
  | loadTail | loadHead =>
    simp only [step] at hs
    split_ifs at hs
    split at hs
    · cases hs
      exact le_refl _
    · cases hs
  | complete =>
    simp only [step] at hs
    split_ifs at hs
    cases hs
    exact le_refl _

theorem Reading.after_step (h : s.Reading cap) {a : MetricsAct n P T}
    (hs : step cap s a = some s') (hlt : ∀ i, (s'.shards i).ring.claims.length < 2 ^ 63) :
    s'.Reading cap := by
  have hgrows := claims_le hs
  cases a with
  | shard j a =>
    obtain ⟨shard, hshard, rfl⟩ := Option.map_eq_some_iff.mp hs
    have hsound : ∀ i, (Function.update s.shards j shard i).Sound cap := by
      intro i
      by_cases hij : i = j
      · subst hij
        rw [Function.update_self]
        refine (h.shards i).after_step hshard ?_
        have hi := hlt i
        dsimp only at hi
        rwa [Function.update_self] at hi
      · rw [Function.update_of_ne hij]
        exact h.shards i
    refine ⟨hsound, fun tail htail => ?_⟩
    -- `tail` counts the claims, and they only grow
    obtain ⟨hlen, hold⟩ := h.loaded tail htail
    refine ⟨hlen, ?_⟩
    rw [(h.shards _).ring.tail] at hold
    rw [(hsound _).ring.tail]
    exact hold.trans (hgrows _)
  | loadTail =>
    simp only [step] at hs
    split_ifs at hs with hlen
    split at hs
    · cases hs
      refine ⟨h.shards, fun tail htail => ?_⟩
      cases htail
      exact ⟨hlen, le_refl _⟩
    · cases hs
  | loadHead =>
    simp only [step] at hs
    split_ifs at hs
    split at hs
    · cases hs
      exact ⟨h.shards, nofun⟩
    · cases hs
  | complete =>
    simp only [step] at hs
    split_ifs at hs with hlen
    cases hs
    refine ⟨h.shards, fun tail htail => ?_⟩
    obtain ⟨hlen', -⟩ := h.loaded tail htail
    exact absurd hlen hlen'.ne

theorem loadHead_cases (hs : step cap s .loadHead = some s') :
    ∃ (h : s.lens.length < n) (tail : Nat), s.loaded = some tail ∧
      s'.lens = s.lens ++ [sub64 tail (s.shards ⟨s.lens.length, h⟩).ring.head] := by
  simp only [step] at hs
  split_ifs at hs with hlen
  split at hs
  · rename_i tail htail
    cases hs
    exact ⟨hlen, tail, htail, rfl⟩
  · cases hs

/-- The call of `Len` in progress: its difference is exact and at most the capacity, or `head` has
passed the loaded `tail` and the difference is more than the capacity. -/
theorem Reading.len_cases (h : s.Reading cap) {tail : Nat} (htail : s.loaded = some tail)
    (hlt : ∀ i, (s.shards i).ring.claims.length < 2 ^ 63) (hlen : s.lens.length < n) :
    let head := (s.shards ⟨s.lens.length, hlen⟩).ring.head
    head ≤ tail ∧ sub64 tail head = tail - head ∧ tail - head ≤ cap.size ∨
      tail < head ∧ cap.size < sub64 tail head := by
  obtain ⟨_, hle⟩ := h.loaded tail htail
  have hsound := h.shards ⟨s.lens.length, hlen⟩
  have hbound := hlt ⟨s.lens.length, hlen⟩
  obtain ⟨hhead, hsize⟩ := hsound.head_tail
  rw [← hsound.ring.tail] at hbound
  exact sub64_cases (hle.trans hsize) (hhead.trans_lt hbound)

/-- What the snapshots have reported. -/
structure Bounded (cap : Capacity) (s : Metrics n P T) : Prop where
  lens : ∀ len ∈ s.lens, len ≤ cap.size
  snapshots : ∀ total ∈ s.snapshots, total ≤ n * cap.size

/-- Lengths are at most the capacity, and sums of lengths at most that for each shard; and what a
call of `Len` is about to report is the difference of what it loads. -/
structure Sane (cap : Capacity) (s : Metrics n P T) : Prop extends Bounded cap s where
  next : ∀ s', step cap s .loadHead = some s' → s.Unpassed .loadHead →
    ∃ (h : s.lens.length < n) (tail : Nat), s.loaded = some tail ∧
      s'.lens = s.lens ++ [tail - (s.shards ⟨s.lens.length, h⟩).ring.head]
  /-- And where `head` has passed `tail`, what it is about to report is more than the capacity. -/
  passed : ∀ s', step cap s .loadHead = some s' → ¬ s.Unpassed .loadHead →
    ∃ len, s'.lens = s.lens ++ [len] ∧ cap.size < len

omit [DecidableEq P] in
theorem bounded_init : Bounded cap (init : Metrics n P T) where
  lens _ h := by cases h
  snapshots _ h := by cases h

theorem Bounded.after_step (h : s.Bounded cap) (hr : s.Reading cap)
    (hlt : ∀ i, (s.shards i).ring.claims.length < 2 ^ 63) {a : MetricsAct n P T} (ha : s.Unpassed a)
    (hs : step cap s a = some s') : s'.Bounded cap := by
  cases a with
  | shard j a =>
    obtain ⟨shard, hshard, rfl⟩ := Option.map_eq_some_iff.mp hs
    exact ⟨h.lens, h.snapshots⟩
  | loadTail =>
    simp only [step] at hs
    split_ifs at hs
    split at hs
    · cases hs
      exact ⟨h.lens, h.snapshots⟩
    · cases hs
  | loadHead =>
    simp only [step] at hs
    split_ifs at hs with hlen
    split at hs
    · rename_i tail htail
      cases hs
      refine ⟨fun len hmem => ?_, h.snapshots⟩
      rcases List.mem_append.mp hmem with hmem | hmem
      · exact h.lens len hmem
      · rw [List.mem_singleton.mp hmem]
        rcases hr.len_cases htail hlt hlen with ⟨-, hexact, hle⟩ | ⟨hpassed, -⟩
        · rw [hexact]
          exact hle
        · exact absurd (ha hlen tail htail) (Nat.not_le.mpr hpassed)
    · cases hs
  | complete =>
    simp only [step] at hs
    split_ifs at hs with hlen
    cases hs
    refine ⟨nofun, fun total hmem => ?_⟩
    rcases List.mem_append.mp hmem with hmem | hmem
    · exact h.snapshots total hmem
    · rw [List.mem_singleton.mp hmem]
      have hsum := queuedOperations_le h.lens
      rwa [hlen] at hsum

/-- **The length is a sane snapshot** if `head` never passes the `tail` that a call of `Len` has
loaded, for fewer than `2^63` enqueues; and the call for which it does reports more than the
capacity. -/
theorem len_of_unpassed (cap : Capacity) (acts : List (MetricsAct n P T)) {s : Metrics n P T}
    (h : Trans.exec (step cap) init acts = some s)
    (hlt : ∀ i, (s.shards i).ring.claims.length < 2 ^ 63)
    (hunpassed : Trans.Along (step cap) Unpassed init acts) : s.Sane cap := by
  have hbounded : (∀ i, (s.shards i).ring.claims.length < 2 ^ 63) →
      s.Reading cap ∧ s.Bounded cap := by
    refine Trans.exec_along (I := fun s => (∀ i, (s.shards i).ring.claims.length < 2 ^ 63) →
      s.Reading cap ∧ s.Bounded cap) (fun {s a s'} hi ha hs hlt => ?_)
      (fun _ => ⟨reading_init, bounded_init⟩) hunpassed h
    have hlt' : ∀ i, (s.shards i).ring.claims.length < 2 ^ 63 := fun i =>
      (claims_le hs i).trans_lt (hlt i)
    obtain ⟨hreading, hbounded⟩ := hi hlt'
    exact ⟨hreading.after_step hs hlt, hbounded.after_step hreading hlt' ha hs⟩
  obtain ⟨hreading, hsane⟩ := hbounded hlt
  refine ⟨hsane, fun s' hs hnext => ?_, fun s' hs hpassed => ?_⟩
  · obtain ⟨hlen, tail, htail, hreport⟩ := loadHead_cases hs
    refine ⟨hlen, tail, htail, ?_⟩
    rcases hreading.len_cases htail hlt hlen with ⟨-, hexact, -⟩ | ⟨hpassed, -⟩
    · rw [hreport, hexact]
    · exact absurd (hnext hlen tail htail) (Nat.not_le.mpr hpassed)
  · obtain ⟨hlen, tail, htail, hreport⟩ := loadHead_cases hs
    refine ⟨_, hreport, ?_⟩
    rcases hreading.len_cases htail hlt hlen with ⟨hle, -⟩ | ⟨-, hlarge⟩
    · refine absurd (fun hlen' tail' htail' => ?_) hpassed
      cases htail.symm.trans htail'
      exact hle
    · exact hlarge

end Metrics

/-- A value is enqueued, and `Len` loads `tail`; another value is enqueued, and `Len` loads
`head`. -/
def steadyActs : List (MetricsAct 1 Bool Nat) :=
  [.shard 0 (.ring (.tryEnqueue true 7)), .shard 0 (.ring (.produce true)),
    .shard 0 (.ring (.produce true)), .shard 0 (.ring (.produce true)), .loadTail,
    .shard 0 (.ring (.produce true)), .shard 0 (.ring (.produce true)),
    .shard 0 (.ring (.tryEnqueue false 8)), .shard 0 (.ring (.produce false)),
    .shard 0 (.ring (.produce false)), .shard 0 (.ring (.produce false)), .loadHead, .complete]

theorem len_of_unpassed_steadyActs :
    ∃ s, Trans.exec (Metrics.step pairCapacity) Metrics.init steadyActs = some s ∧
      s.Sane pairCapacity ∧ s.snapshots = [1] := by
  refine ⟨_, rfl, ?_, rfl⟩
  exact Metrics.len_of_unpassed pairCapacity steadyActs rfl (by decide) (by decide +kernel)

/-- `Len` loads `tail`, a value is enqueued and dequeued, and `Len` loads `head`. -/
def overtakenActs : List (MetricsAct 1 Bool Nat) :=
  [.loadTail, .shard 0 (.ring (.tryEnqueue true 7)), .shard 0 (.ring (.produce true)),
    .shard 0 (.ring (.produce true)), .shard 0 (.ring (.produce true)),
    .shard 0 (.ring (.produce true)), .shard 0 (.ring (.produce true)),
    .shard 0 (.ring .tryDequeue), .shard 0 (.ring .consume), .shard 0 (.ring .consume),
    .shard 0 (.ring .consume), .shard 0 (.ring .consume), .shard 0 (.ring .consume),
    .shard 0 (.ring .consume), .loadHead, .complete]

/-- **`Len` can wrap**: the ring is empty before and after, and its length is `2^64 - 1`. -/
theorem len_wraps :
    ∃ s, Trans.exec (Metrics.step pairCapacity) Metrics.init overtakenActs = some s ∧
      s.snapshots = [2 ^ 64 - 1] ∧ (s.shards 0).ring.tail = 1 ∧ (s.shards 0).ring.head = 1 :=
  ⟨_, rfl, rfl, rfl, rfl⟩

end Length

end RedLease.MpscRing
