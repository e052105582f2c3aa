import Mathlib.Order.Basic
import Mathlib.Order.Lattice

/-!
# Binary heaps over an exchange interface

The algorithms of Go's `container/heap` (`up`, `down` and the index arithmetic of `Pop`, `Remove`
and `Fix`) over an abstract state `σ` that offers a length, a comparison of two positions and the
exchange of two positions. The state decides what an exchange does besides moving the elements (an
element may record its own position), so every fact about such side data comes from
`up_preserves` / `down_preserves`: what one exchange keeps, the sifts keep.

The order is stated over the priorities of the positions, `f : ℕ → K`:

* `Ordered f n`: the first `n` positions form a min-heap;
* `UpReady f j n` / `DownReady f i n`: the only edges out of order enter `j` / leave `i`;
* `Ready f i n`: both kinds of edge at `i` may be out of order (`Remove`, `Fix`).
-/

namespace RedLease.Lib.Heap

/-! ## The algorithms -/

/-- The part of `heap.Interface` that `up` and `down` use. -/
structure Interface (σ : Type) where
  len : σ → Nat
  less : σ → Nat → Nat → Bool
  swap : σ → Nat → Nat → σ

variable {σ : Type} (I : Interface σ)

/-- `up`, with the iterations left. -/
def upLoop : Nat → σ → Nat → σ
  | 0, s, _ => s
  | fuel + 1, s, j =>
    let i := (j - 1) / 2
    if i = j ∨ I.less s j i = false then s else upLoop fuel (I.swap s i j) i

/-- `up(h, j)`: the position at least halves, so `j` iterations are enough. -/
def up (s : σ) (j : Nat) : σ := upLoop I j s j

/-- The child of `i` that `down` compares with `i`: the left one unless the right one exists and
is smaller. -/
def downChild (s : σ) (n i : Nat) : Nat :=
  if 2 * i + 2 < n ∧ I.less s (2 * i + 2) (2 * i + 1) = true then 2 * i + 2 else 2 * i + 1

/-- The loop of `down`, with the iterations left; also returns the final position. -/
def downLoop (n : Nat) : Nat → σ → Nat → σ × Nat
  | 0, s, i => (s, i)
  | fuel + 1, s, i =>
    if n ≤ 2 * i + 1 then (s, i)
    else
      let j := downChild I s n i
      if I.less s j i = false then (s, i) else downLoop n fuel (I.swap s i j) j

/-- `down(h, i0, n)`: the new state, and whether the element moved. -/
def down (s : σ) (i0 n : Nat) : σ × Bool :=
  let r := downLoop I n n s i0
  (r.1, decide (i0 < r.2))

/-- `if !down(h, i, n) { up(h, i) }`, the common tail of `Remove` and `Fix`. -/
def sift (s : σ) (i n : Nat) : σ :=
  let r := down I s i n
  if r.2 then r.1 else up I r.1 i

/-! ## What one exchange keeps, the sifts keep -/

section Preserves

variable {I} {P : σ → Prop}

theorem upLoop_preserves (hlen : ∀ s i j, I.len (I.swap s i j) = I.len s) {m : Nat}
    (h : ∀ s i j, I.len s = m → i < m → j < m → P s → P (I.swap s i j)) :
    ∀ fuel s j, I.len s = m → j < m → P s → P (upLoop I fuel s j)
  | 0, _, _, _, _, hP => hP
  | fuel + 1, s, j, hm, hj, hP => by
    unfold upLoop
    simp only
    split
    · exact hP
    · have hi : (j - 1) / 2 < m := by omega
      exact upLoop_preserves hlen h fuel _ _ (by rw [hlen, hm]) hi (h s _ _ hm hi hj hP)

theorem up_preserves (hlen : ∀ s i j, I.len (I.swap s i j) = I.len s) {m : Nat}
    (h : ∀ s i j, I.len s = m → i < m → j < m → P s → P (I.swap s i j))
    {s : σ} {j : Nat} (hm : I.len s = m) (hj : j < m) (hP : P s) : P (up I s j) :=
  upLoop_preserves hlen h j s j hm hj hP

theorem downChild_lt {s : σ} {n i : Nat} (h : ¬ n ≤ 2 * i + 1) :
    downChild I s n i < n ∧ i < downChild I s n i ∧ (downChild I s n i - 1) / 2 = i := by
  unfold downChild
  split <;> omega

theorem downLoop_preserves (hlen : ∀ s i j, I.len (I.swap s i j) = I.len s) {n m : Nat}
    (hnm : n ≤ m) (h : ∀ s i j, I.len s = m → i < n → j < n → P s → P (I.swap s i j)) :
    ∀ fuel s i, I.len s = m → P s → P (downLoop I n fuel s i).1
  | 0, _, _, _, hP => hP
  | fuel + 1, s, i, hm, hP => by
    unfold downLoop
    split
    · exact hP
    · rename_i hn
      obtain ⟨hj, hij, -⟩ := downChild_lt (I := I) (s := s) hn
      simp only
      split
      · exact hP
      · exact downLoop_preserves hlen hnm h fuel _ _ (by rw [hlen, hm])
          (h s _ _ hm (by omega) hj hP)

theorem down_preserves (hlen : ∀ s i j, I.len (I.swap s i j) = I.len s) {n m : Nat}
    (hnm : n ≤ m) (h : ∀ s i j, I.len s = m → i < n → j < n → P s → P (I.swap s i j))
    {s : σ} {i : Nat} (hm : I.len s = m) (hP : P s) : P (down I s i n).1 :=
  downLoop_preserves hlen hnm h n s i hm hP

/-- What every exchange below `n` keeps, `sift` keeps. The states have at least `n` elements. -/
theorem sift_preserves (hlen : ∀ s i j, I.len (I.swap s i j) = I.len s) {n m : Nat}
    (hnm : n ≤ m) (h : ∀ s i j, I.len s = m → i < n → j < n → P s → P (I.swap s i j))
    {s : σ} {i : Nat} (hm : I.len s = m) (hi : i < n) (hP : P s) : P (sift I s i n) := by
  have hd := down_preserves hlen hnm h (i := i) hm hP
  have hdl : I.len (down I s i n).1 = m :=
    down_preserves (P := fun s => I.len s = m) hlen hnm
      (fun s i j hm _ _ _ => by rw [hlen, hm]) hm hm
  unfold sift
  simp only
  split
  · exact hd
  · -- `up` starts below `n` and only moves towards the root, so its exchanges are below `n`
    have hup : ∀ fuel s j, I.len s = m → j < n → P s → P (upLoop I fuel s j) := by
      intro fuel
      induction fuel with
      | zero => exact fun _ _ _ _ hP => hP
      | succ fuel ih =>
        intro s j hm hj hP
        unfold upLoop
        simp only
        split
        · exact hP
        · have hi : (j - 1) / 2 < n := by omega
          exact ih _ _ (by rw [hlen, hm]) hi (h s _ _ hm hi hj hP)
    exact hup i _ i hdl hi hd

end Preserves

/-! ## The heap order on priorities -/

section Order

variable {K : Type}

/-- The priorities after positions `i` and `j` are exchanged. -/
def exch (f : Nat → K) (i j m : Nat) : K := if m = i then f j else if m = j then f i else f m

variable {f : Nat → K} {i j n : Nat}

theorem exch_left : exch f i j i = f j := by simp [exch]

theorem exch_right : exch f i j j = f i := by
  unfold exch
  by_cases h : j = i
  · rw [if_pos h, h]
  · rw [if_neg h, if_pos rfl]

theorem exch_of_ne {m : Nat} (hi : m ≠ i) (hj : m ≠ j) : exch f i j m = f m := by
  simp [exch, hi, hj]

variable [LinearOrder K]

/-- The first `n` positions are a min-heap. -/
def Ordered (f : Nat → K) (n : Nat) : Prop :=
  ∀ m, 0 < m → m < n → f ((m - 1) / 2) ≤ f m

/-- Only the edge entering `j` may be out of order. -/
structure UpReady (f : Nat → K) (j n : Nat) : Prop where
  except : ∀ m, 0 < m → m < n → m ≠ j → f ((m - 1) / 2) ≤ f m
  grand : 0 < j → ∀ c, 0 < c → c < n → (c - 1) / 2 = j → f ((j - 1) / 2) ≤ f c

/-- Only the edges leaving `i` may be out of order. -/
structure DownReady (f : Nat → K) (i n : Nat) : Prop where
  except : ∀ m, 0 < m → m < n → (m - 1) / 2 ≠ i → f ((m - 1) / 2) ≤ f m
  grand : 0 < i → ∀ c, 0 < c → c < n → (c - 1) / 2 = i → f ((i - 1) / 2) ≤ f c

/-- Only edges at `i` may be out of order. -/
structure Ready (f : Nat → K) (i n : Nat) : Prop where
  except : ∀ m, 0 < m → m < n → m ≠ i → (m - 1) / 2 ≠ i → f ((m - 1) / 2) ≤ f m
  grand : 0 < i → ∀ c, 0 < c → c < n → (c - 1) / 2 = i → f ((i - 1) / 2) ≤ f c

/-- The root of a heap is its minimum. -/
theorem Ordered.root_le (h : Ordered f n) : ∀ m, m < n → f 0 ≤ f m := by
  intro m
  induction m using Nat.strong_induction_on with
  | _ m ih =>
    intro hm
    by_cases h0 : m = 0
    · rw [h0]
    · exact le_trans (ih ((m - 1) / 2) (by omega) (by omega)) (h m (by omega) hm)

theorem UpReady.step (h : UpReady f j n) (hj0 : 0 < j) (hjn : j < n)
    (hlt : f j < f ((j - 1) / 2)) : UpReady (exch f ((j - 1) / 2) j) ((j - 1) / 2) n := by
  obtain ⟨i, hi⟩ : ∃ i, i = (j - 1) / 2 := ⟨_, rfl⟩
  rw [← hi] at hlt ⊢
  have hij : i < j := by omega
  refine ⟨fun m hm0 hmn hmi => ?_, fun hi0 c hc0 hcn hci => ?_⟩
  · by_cases hmj : m = j
    · subst hmj
      rw [exch_right, ← hi, exch_left]
      exact le_of_lt hlt
    · rw [exch_of_ne hmi hmj]
      have hm := h.except m hm0 hmn hmj
      by_cases hp : (m - 1) / 2 = j
      · rw [hp, exch_right, hi]
        exact h.grand hj0 m hm0 hmn hp
      · by_cases hp' : (m - 1) / 2 = i
        · rw [hp', exch_left]
          rw [hp'] at hm
          exact le_of_lt (lt_of_lt_of_le hlt hm)
        · rw [exch_of_ne hp' hp]
          exact hm
  · have hpi : f ((i - 1) / 2) ≤ f i := h.except i hi0 (by omega) (by omega)
    rw [exch_of_ne (m := (i - 1) / 2) (by omega) (by omega)]
    by_cases hcj : c = j
    · rw [hcj, exch_right]
      exact hpi
    · rw [exch_of_ne (by omega) hcj]
      have hc := h.except c hc0 hcn hcj
      rw [hci] at hc
      exact le_trans hpi hc

theorem UpReady.stop (h : UpReady f j n) (hj : j = 0 ∨ f ((j - 1) / 2) ≤ f j) : Ordered f n := by
  intro m hm0 hmn
  by_cases hmj : m = j
  · subst hmj
    exact hj.resolve_left (by omega)
  · exact h.except m hm0 hmn hmj

/-- A step of `down` at `i`, where the edge entering `i` may also be out of order. -/
theorem Ready.down_step (h : Ready f i n) (hij : i < j) (hp : (j - 1) / 2 = i)
    (hmin : ∀ c, 0 < c → c < n → (c - 1) / 2 = i → f j ≤ f c) (hlt : f j < f i) (hjn : j < n) :
    DownReady (exch f i j) j n := by
  refine ⟨fun m hm0 hmn hpm => ?_, fun _ c hc0 hcn hcj => ?_⟩
  · by_cases hmj : m = j
    · subst hmj
      rw [hp, exch_left, exch_right]
      exact le_of_lt hlt
    · by_cases hmi : m = i
      · subst hmi
        rw [exch_left, exch_of_ne (m := (m - 1) / 2) (by omega) (by omega)]
        exact h.grand hm0 j (by omega) hjn hp
      · rw [exch_of_ne hmi hmj]
        by_cases hpi : (m - 1) / 2 = i
        · rw [hpi, exch_left]
          exact hmin m hm0 hmn hpi
        · rw [exch_of_ne hpi hpm]
          exact h.except m hm0 hmn hmi hpi
  · rw [hp, exch_left, exch_of_ne (by omega) (by omega)]
    have := h.except c hc0 hcn (by omega) (by omega)
    rwa [hcj] at this

theorem DownReady.ready (h : DownReady f i n) : Ready f i n :=
  ⟨fun m hm0 hmn _ hp => h.except m hm0 hmn hp, h.grand⟩

theorem Ordered.ready (h : Ordered f n) (hi : i < n) : Ready f i n :=
  ⟨fun m hm0 hmn _ _ => h m hm0 hmn, fun hi0 c hc0 hcn hc => by
    have hci := h c hc0 hcn
    rw [hc] at hci
    exact le_trans (h i hi0 hi) hci⟩

/-- The order around `i` does not depend on the priority at `i`. -/
theorem Ready.congr {g : Nat → K} (h : Ready f i n) (hfg : ∀ m, m < n → m ≠ i → g m = f m) :
    Ready g i n := by
  refine ⟨fun m hm0 hmn hmi hp => ?_, fun hi0 c hc0 hcn hc => ?_⟩
  · rw [hfg m hmn hmi, hfg ((m - 1) / 2) (by omega) hp]
    exact h.except m hm0 hmn hmi hp
  · rw [hfg c hcn (by omega), hfg ((i - 1) / 2) (by omega) (by omega)]
    exact h.grand hi0 c hc0 hcn hc

/-- Appending an element at position `n` leaves only the edge entering it to restore. -/
theorem Ordered.push_ready {g : Nat → K} (h : Ordered f n) (hfg : ∀ m, m < n → g m = f m) :
    UpReady g n (n + 1) := by
  refine ⟨fun m hm0 hmn hm => ?_, fun _ c hc0 hcn hc => by omega⟩
  rw [hfg m (by omega), hfg ((m - 1) / 2) (by omega)]
  exact h m hm0 (by omega)

/-- Moving the last element to position `i` leaves only edges at `i` to restore. -/
theorem Ordered.exch_last_ready (h : Ordered f (n + 1)) (hi : i < n) : Ready (exch f i n) i n := by
  have hn : Ready f i (n + 1) := h.ready (by omega)
  have h' : Ready f i n :=
    ⟨fun m hm0 hmn => hn.except m hm0 (by omega), fun hi0 c hc0 hcn => hn.grand hi0 c hc0 (by omega)⟩
  exact h'.congr fun m hm hmi => exch_of_ne hmi (by omega)

end Order

/-! ## The sifts restore the order -/

section Lawful

variable {K : Type} [LinearOrder K]

/-- The comparison and the exchange act on the priorities `key s` as they should. -/
structure Lawful (I : Interface σ) (key : σ → Nat → K) : Prop where
  len_swap : ∀ s i j, I.len (I.swap s i j) = I.len s
  less_iff : ∀ s i j, I.less s i j = true ↔ key s i < key s j
  key_swap : ∀ s i j, i < I.len s → j < I.len s → key (I.swap s i j) = exch (key s) i j

variable {I} {key : σ → Nat → K}

theorem Lawful.less_false (L : Lawful I key) {s : σ} {i j : Nat} :
    I.less s i j = false ↔ key s j ≤ key s i := by
  rw [← Bool.not_eq_true, L.less_iff, not_lt]

theorem Lawful.upLoop_ordered (L : Lawful I key) {n : Nat} :
    ∀ fuel s j, n ≤ I.len s → j < n → j ≤ fuel → UpReady (key s) j n →
      Ordered (key (upLoop I fuel s j)) n
  | 0, s, j, _, _, hf, h => h.stop (Or.inl (by omega))
  | fuel + 1, s, j, hn, hj, hf, h => by
    unfold upLoop
    simp only
    split
    · rename_i hstop
      rcases hstop with h0 | h0
      · exact h.stop (Or.inl (by omega))
      · exact h.stop (Or.inr (L.less_false.mp h0))
    · rename_i hgo
      rw [not_or] at hgo
      have hlt : key s j < key s ((j - 1) / 2) := by
        rw [← L.less_iff]
        simpa using hgo.2
      have hs := h.step (by omega) hj hlt
      rw [← L.key_swap s _ _ (by omega) (by omega)] at hs
      exact L.upLoop_ordered fuel _ _ (by rw [L.len_swap]; exact hn) (by omega) (by omega) hs

/-- **`up` restores the heap** from an element that is only too small for its parent. -/
theorem Lawful.up_ordered (L : Lawful I key) {s : σ} {j n : Nat} (hn : n ≤ I.len s) (hj : j < n)
    (h : UpReady (key s) j n) : Ordered (key (up I s j)) n :=
  L.upLoop_ordered j s j hn hj (le_refl j) h

theorem Lawful.downChild_min (L : Lawful I key) {s : σ} {n i c : Nat} (h : ¬ n ≤ 2 * i + 1)
    (hc0 : 0 < c) (hcn : c < n) (hc : (c - 1) / 2 = i) : key s (downChild I s n i) ≤ key s c := by
  unfold downChild
  by_cases h2 : 2 * i + 2 < n ∧ I.less s (2 * i + 2) (2 * i + 1) = true
  · rw [if_pos h2]
    have : c = 2 * i + 1 ∨ c = 2 * i + 2 := by omega
    rcases this with rfl | rfl
    · exact le_of_lt ((L.less_iff s _ _).mp h2.2)
    · exact le_refl _
  · rw [if_neg h2]
    have : c = 2 * i + 1 ∨ c = 2 * i + 2 := by omega
    rcases this with rfl | rfl
    · exact le_refl _
    · have hf : I.less s (2 * i + 2) (2 * i + 1) = false := by
        by_contra hne
        exact h2 ⟨hcn, by simpa using hne⟩
      exact L.less_false.mp hf

/-- `down` from a position whose outgoing edges are the only ones out of order. -/
theorem Lawful.downLoop_ordered (L : Lawful I key) {n : Nat} :
    ∀ fuel s i, n ≤ I.len s → n ≤ fuel + i → DownReady (key s) i n →
      Ordered (key (downLoop I n fuel s i).1) n
  | 0, s, i, _, hf, h => by
    intro m hm0 hmn
    exact h.except m hm0 hmn (by omega)
  | fuel + 1, s, i, hn, hf, h => by
    unfold downLoop
    split
    · intro m hm0 hmn
      exact h.except m hm0 hmn (by omega)
    · rename_i hni
      obtain ⟨hj, hij, hp⟩ := downChild_lt (I := I) (s := s) hni
      simp only
      split
      · rename_i hstop
        have hle := L.less_false.mp hstop
        intro m hm0 hmn
        by_cases hpm : (m - 1) / 2 = i
        · rw [hpm]
          exact le_trans hle (L.downChild_min hni hm0 hmn hpm)
        · exact h.except m hm0 hmn hpm
      · rename_i hgo
        have hlt : key s (downChild I s n i) < key s i := by
          rw [← L.less_iff]
          simpa using hgo
        have hs := h.ready.down_step hij hp (fun c => L.downChild_min hni) hlt hj
        rw [← L.key_swap s _ _ (by omega) (by omega)] at hs
        exact L.downLoop_ordered fuel _ _ (by rw [L.len_swap]; exact hn) (by omega) hs

theorem downLoop_le {n : Nat} : ∀ fuel (s : σ) i, i ≤ (downLoop I n fuel s i).2
  | 0, _, i => le_refl i
  | fuel + 1, s, i => by
    unfold downLoop
    split
    · exact le_refl i
    · rename_i hni
      obtain ⟨-, hij, -⟩ := downChild_lt (I := I) (s := s) hni
      simp only
      split
      · exact le_refl i
      · have := downLoop_le (n := n) fuel (I.swap s i (downChild I s n i)) (downChild I s n i)
        omega

/-- **`sift` restores the heap** from an element that is out of order with its parent or with its
children. -/
theorem Lawful.sift_ordered (L : Lawful I key) {s : σ} {i n : Nat} (hn : n ≤ I.len s) (hi : i < n)
    (h : Ready (key s) i n) : Ordered (key (sift I s i n)) n := by
  have h0 : n ≠ 0 := by omega
  obtain ⟨fuel, rfl⟩ := Nat.exists_eq_succ_of_ne_zero h0
  -- `down` either stops at once, and `up` finishes, or moves and leaves a heap
  have hcases : (downLoop I (fuel + 1) (fuel + 1) s i = (s, i) ∧ UpReady (key s) i (fuel + 1)) ∨
      (i < (downLoop I (fuel + 1) (fuel + 1) s i).2 ∧
        Ordered (key (downLoop I (fuel + 1) (fuel + 1) s i).1) (fuel + 1)) := by
    rw [downLoop]
    split
    · refine Or.inl ⟨rfl, fun m hm0 hmn hmi => ?_, h.grand⟩
      exact h.except m hm0 hmn hmi (by omega)
    · rename_i hni
      obtain ⟨hj, hij, hp⟩ := downChild_lt (I := I) (s := s) hni
      simp only
      split
      · rename_i hstop
        have hle := L.less_false.mp hstop
        refine Or.inl ⟨rfl, fun m hm0 hmn hmi => ?_, h.grand⟩
        by_cases hpm : (m - 1) / 2 = i
        · rw [hpm]
          exact le_trans hle (L.downChild_min hni hm0 hmn hpm)
        · exact h.except m hm0 hmn hmi hpm
      · rename_i hgo
        have hlt : key s (downChild I s (fuel + 1) i) < key s i := by
          rw [← L.less_iff]
          simpa using hgo
        have hs := h.down_step hij hp (fun c => L.downChild_min hni) hlt hj
        rw [← L.key_swap s _ _ (by omega) (by omega)] at hs
        refine Or.inr ⟨lt_of_lt_of_le hij (downLoop_le _ _ _), ?_⟩
        exact L.downLoop_ordered fuel _ _ (by rw [L.len_swap]; exact hn) (by omega) hs
  unfold sift down
  simp only
  rcases hcases with ⟨heq, hup⟩ | ⟨hmv, hord⟩
  · rw [heq]
    simp only [lt_irrefl, decide_false, Bool.false_eq_true, if_false]
    exact L.up_ordered hn hi hup
  · rw [if_pos (by simpa using hmv)]
    exact hord

end Lawful

end RedLease.Lib.Heap
