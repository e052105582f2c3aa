import Mathlib.Algebra.BigOperators.Group.Finset.Basic
import Mathlib.Algebra.Order.BigOperators.Group.Finset
import Mathlib.Data.List.FinRange

/-!
# Families of components

A state made of components (`f : ι → α`) where a step replaces one of them (`Function.update`): which
entries there are afterwards, and for finitely many components how a quantity that is summed over
them moves when one is replaced, in the additive form that needs no subtraction. The components of a
list are counted in the same way.
-/

namespace RedLease.Lib.Family

variable {ι α : Type} [Fintype ι]

/-- Replacing component `i` by `v` trades its share of the sum for the share of `v`. -/
theorem sum_update [DecidableEq ι] (g : α → Nat) (f : ι → α) (i : ι) (v : α) :
    (∑ j, g (Function.update f i v j)) + g (f i) = (∑ j, g (f j)) + g v := by
  have hrest : ∑ j ∈ Finset.univ.erase i, g (Function.update f i v j) =
      ∑ j ∈ Finset.univ.erase i, g (f j) :=
    Finset.sum_congr rfl fun j hj => by rw [Function.update_of_ne (Finset.ne_of_mem_erase hj)]
  rw [← Finset.add_sum_erase Finset.univ (fun j => g (Function.update f i v j))
      (Finset.mem_univ i),
    ← Finset.add_sum_erase Finset.univ (fun j => g (f j)) (Finset.mem_univ i), hrest,
    Function.update_self]
  omega

/-- One component's share is at most the sum. -/
theorem le_sum (g : ι → Nat) (i : ι) : g i ≤ ∑ j, g j :=
  Finset.single_le_sum (fun _ _ => Nat.zero_le _) (Finset.mem_univ i)

omit [Fintype ι] in
/-- An entry after component `i` was set is the new one, or an old one elsewhere. -/
theorem update_eq_some [DecidableEq ι] {f : ι → Option α} {i j : ι} {x y : α}
    (h : Function.update f i (some x) j = some y) : j = i ∧ y = x ∨ j ≠ i ∧ f j = some y := by
  by_cases hj : j = i
  · subst hj
    rw [Function.update_self] at h
    exact Or.inl ⟨rfl, (Option.some.inj h).symm⟩
  · rw [Function.update_of_ne hj] at h
    exact Or.inr ⟨hj, h⟩

omit [Fintype ι] in
/-- The rule for a loop over the indices of an array: what holds of the accumulator before index `k`
holds, with `k + 1`, after its body. -/
theorem foldl_finRange {n : Nat} (P : Nat → α → Prop) {f : α → Fin n → α} {init : α}
    (h0 : P 0 init) (hstep : ∀ (k : Fin n) acc, P k.val acc → P (k.val + 1) (f acc k)) :
    P n ((List.finRange n).foldl f init) := by
  induction n with
  | zero => simpa using h0
  | succ n ih =>
    rw [List.finRange_succ_last, List.foldl_append, List.foldl_map]
    exact hstep (Fin.last n) _ (ih fun k acc hk => hstep k.castSucc acc hk)

theorem countP_eraseIdx (p : α → Bool) {l : List α} {k : Nat} {x : α} (h : l[k]? = some x) :
    (l.eraseIdx k).countP p + (p x).toNat = l.countP p := by
  obtain ⟨hk, rfl⟩ := List.getElem?_eq_some_iff.mp h
  rw [← (List.getElem_cons_eraseIdx_perm hk).countP_eq p, List.countP_cons]
  cases p l[k] <;> rfl

theorem countP_or_le (p q : α → Bool) (l : List α) :
    l.countP (fun x => p x || q x) ≤ l.countP p + l.countP q := by
  induction l with
  | nil => exact Nat.zero_le _
  | cons x l ih =>
    simp only [List.countP_cons]
    cases p x <;> cases q x <;> simp <;> omega

end RedLease.Lib.Family
