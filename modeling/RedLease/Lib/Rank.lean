import Mathlib.Data.Finset.Lattice.Fold
import Mathlib.Data.Finset.Powerset
import Mathlib.Data.List.Sort
import Mathlib.Order.Bounds.Basic

/-!
# The k-th largest element

`KthLargest l k v` says, by counting, that `v` is the `k`-th largest element of a list, equal elements
counted separately.

* **`kthLargest_iff_of_sorted`**: in a sorted list it is the one at distance `k` from the end.
* `KthLargest.unique`, `KthLargest.perm`: it depends on the elements only.
* **`KthLargest.isGreatest`**: it is the largest bound that `k` elements reach, and so it grows with
  the list (`KthLargest.mono`).
* **`isGreatest_minima`**: the largest bound that `k` members of a finite set reach is the best
  minimum over its subsets of `k` members.
-/

namespace RedLease.Lib

universe u

variable {α : Type u} [LinearOrder α] {l l' : List α} {k : Nat} {v v' : α}

/-- At least `k` elements reach `v`, and fewer than `k` are larger. -/
def KthLargest (l : List α) (k : Nat) (v : α) : Prop :=
  k ≤ l.countP (fun c => v ≤ c) ∧ l.countP (fun c => v < c) < k

instance : Decidable (KthLargest l k v) := inferInstanceAs (Decidable (_ ∧ _))

theorem KthLargest.perm (h : KthLargest l k v) (hp : l.Perm l') : KthLargest l' k v := by
  rw [KthLargest, ← hp.countP_eq, ← hp.countP_eq]
  exact h

theorem KthLargest.le_length (h : KthLargest l k v) : k ≤ l.length :=
  h.1.trans List.countP_le_length

/-- **The k-th largest element is the largest bound** that `k` elements reach. -/
theorem KthLargest.isGreatest (h : KthLargest l k v) :
    IsGreatest {t | k ≤ l.countP (fun c => t ≤ c)} v := by
  refine ⟨h.1, fun t ht => ?_⟩
  by_contra hlt
  have hmono : l.countP (fun c => t ≤ c) ≤ l.countP (fun c => v < c) := by
    refine List.countP_mono_left fun c _ hc => ?_
    rw [decide_eq_true_eq] at hc ⊢
    exact lt_of_lt_of_le (not_le.mp hlt) hc
  exact absurd (ht.trans hmono) (not_le.mpr h.2)

/-- More elements do not lower it. -/
theorem KthLargest.mono (h : KthLargest l k v) (h' : KthLargest l' k v')
    (hcount : ∀ t, l.countP (fun c => t ≤ c) ≤ l'.countP (fun c => t ≤ c)) : v ≤ v' :=
  h'.isGreatest.2 (h.1.trans (hcount v))

theorem KthLargest.le (h : KthLargest l k v) (h' : KthLargest l k v') : v ≤ v' :=
  h.mono h' fun _ => le_refl _

theorem KthLargest.unique (h : KthLargest l k v) (h' : KthLargest l k v') : v = v' :=
  le_antisymm (h.le h') (h'.le h)

/-- **The k-th largest element of a sorted list** is at distance `k` from its end. -/
theorem kthLargest_of_sorted (hl : l.Pairwise (· ≤ ·)) (hk : 0 < k) (hlen : k ≤ l.length)
    (hv : l[l.length - k]? = some v) : KthLargest l k v := by
  obtain ⟨hlt, hget⟩ := List.getElem?_eq_some_iff.mp hv
  have hsplit : l.take (l.length - k) ++ v :: l.drop (l.length - k + 1) = l := by
    rw [← hget, List.getElem_cons_drop, List.take_append_drop]
  have hrest : (l.drop (l.length - k + 1)).length = k - 1 := by
    rw [List.length_drop]
    omega
  rw [← hsplit, List.pairwise_append, List.pairwise_cons] at hl
  obtain ⟨-, ⟨hafter, -⟩, hbefore⟩ := hl
  have hlarge : (l.drop (l.length - k + 1)).countP (fun c => v ≤ c) = k - 1 := by
    rw [← hrest, List.countP_eq_length]
    exact fun c hc => decide_eq_true (hafter c hc)
  have hsmall : (l.take (l.length - k)).countP (fun c => v < c) = 0 := by
    rw [List.countP_eq_zero]
    intro c hc
    rw [decide_eq_true_eq, not_lt]
    exact hbefore c hc v List.mem_cons_self
  constructor
  · rw [← hsplit, List.countP_append, List.countP_cons, hlarge,
      if_pos (decide_eq_true (le_refl v))]
    omega
  · rw [← hsplit, List.countP_append, List.countP_cons, hsmall,
      if_neg (by rw [decide_eq_true_eq]; exact lt_irrefl v)]
    have := List.countP_le_length (p := fun c => v < c) (l := l.drop (l.length - k + 1))
    omega

theorem kthLargest_iff_of_sorted (hl : l.Pairwise (· ≤ ·)) (hk : 0 < k) :
    KthLargest l k v ↔ k ≤ l.length ∧ l[l.length - k]? = some v := by
  constructor
  · intro h
    have hlen := h.le_length
    have hget : l[l.length - k]? = some (l[l.length - k]) :=
      List.getElem?_eq_getElem (by omega)
    rw [hget, (kthLargest_of_sorted hl hk hlen hget).unique h]
    exact ⟨hlen, rfl⟩
  · rintro ⟨hlen, hv⟩
    exact kthLargest_of_sorted hl hk hlen hv

theorem KthLargest.exists_of_le_length (hk : 0 < k) (hlen : k ≤ l.length) :
    ∃ v, KthLargest l k v := by
  have hperm := List.perm_insertionSort (· ≤ ·) l
  have hsorted := List.pairwise_insertionSort (· ≤ ·) l
  have hlen' : k ≤ (l.insertionSort (· ≤ ·)).length := by rwa [hperm.length_eq]
  have hget := List.getElem?_eq_getElem (l := l.insertionSort (· ≤ ·))
    (i := (l.insertionSort (· ≤ ·)).length - k) (by omega)
  exact ⟨_, (kthLargest_of_sorted hsorted hk hlen' hget).perm hperm⟩

section Minima

variable {ι : Type*} {A : Finset ι} {f : ι → α}

/-- **The largest bound that `k` members reach is the best minimum** over `k` members. -/
theorem isGreatest_minima (hv : IsGreatest {t | k ≤ (A.filter fun r => t ≤ f r).card} v)
    (hk : 0 < k) :
    IsGreatest {m | ∃ S ⊆ A, S.card = k ∧ ∃ hne : S.Nonempty, S.inf' hne f = m} v := by
  have hupper : ∀ S ⊆ A, S.card = k → ∀ hne : S.Nonempty, S.inf' hne f ≤ v := by
    intro S hSA hcard hne
    refine hv.2 ?_
    have hsub : S ⊆ A.filter fun r => S.inf' hne f ≤ f r := fun r hr =>
      Finset.mem_filter.mpr ⟨hSA hr, Finset.inf'_le f hr⟩
    exact hcard ▸ Finset.card_le_card hsub
  constructor
  · obtain ⟨S, hS, hcard⟩ := Finset.exists_subset_card_eq hv.1
    have hne : S.Nonempty := Finset.card_pos.mp (hcard ▸ hk)
    have hSA : S ⊆ A := hS.trans (Finset.filter_subset _ A)
    refine ⟨S, hSA, hcard, hne, le_antisymm (hupper S hSA hcard hne) ?_⟩
    exact Finset.le_inf' hne f fun r hr => (Finset.mem_filter.mp (hS hr)).2
  · rintro m ⟨S, hSA, hcard, hne, rfl⟩
    exact hupper S hSA hcard hne

end Minima

end RedLease.Lib
