import Mathlib.Order.Nat
import Mathlib.Tactic.SplitIfs

/-!
# Cells that announce their changes

A family of cells, each with a channel that is closed and replaced on every change of the cell, as
under a mutex: a reader takes the value together with the channel and can wait for the next change.

* **`Valid.set`**: no channel is closed twice.
* **`Seen.set`**: while the channel that a reader took is open, the value that it took is current.
-/

namespace RedLease.Lib.Broadcast

variable {ι α : Type} [DecidableEq ι]

/-- Values that are replaced, each with the channel that says so. -/
structure Cells (ι α : Type) where
  value : ι → α
  /-- The channel that the next change closes. -/
  changed : ι → Nat
  isClosed : Nat → Bool
  /-- The number of channels made so far. -/
  allocated : Nat
  /-- A channel was closed twice. -/
  panicked : Bool

/-- Changes a cell, closes its channel and makes a new one. -/
def Cells.set (c : Cells ι α) (i : ι) (v : α) : Cells ι α where
  value := Function.update c.value i v
  changed := Function.update c.changed i c.allocated
  isClosed := Function.update c.isClosed (c.changed i) true
  allocated := c.allocated + 1
  panicked := c.panicked || c.isClosed (c.changed i)

/-- Every cell has an open channel of its own. -/
structure Valid (c : Cells ι α) : Prop where
  isOpen : ∀ i, c.isClosed (c.changed i) = false
  made : ∀ i, c.changed i < c.allocated
  own : Function.Injective c.changed
  unmade : ∀ ch, c.allocated ≤ ch → c.isClosed ch = false
  safe : c.panicked = false

variable {c : Cells ι α} {i j : ι} {v w : α} {ch : Nat}

theorem Valid.set (h : Valid c) : Valid (c.set i v) where
  isOpen j := by
    by_cases hj : j = i
    · subst hj
      have hne : c.allocated ≠ c.changed j := (h.made j).ne'
      simp only [Cells.set, Function.update_self, Function.update_of_ne hne]
      exact h.unmade _ (Nat.le_refl _)
    · have hne : c.changed j ≠ c.changed i := fun heq => hj (h.own heq)
      simp only [Cells.set, Function.update_of_ne hj, Function.update_of_ne hne]
      exact h.isOpen j
  made j := by
    by_cases hj : j = i
    · subst hj
      simp [Cells.set]
    · simp only [Cells.set, Function.update_of_ne hj]
      exact (h.made j).trans (Nat.lt_succ_self _)
  own j k heq := by
    simp only [Cells.set, Function.update_apply] at heq
    have hj := h.made j
    have hk := h.made k
    split_ifs at heq with hji hki hki
    · exact hji.trans hki.symm
    · omega
    · omega
    · exact h.own heq
  unmade ch hch := by
    have hlt : c.allocated < ch := hch
    have hne : ch ≠ c.changed i := ((h.made i).trans hlt).ne'
    simp only [Cells.set, Function.update_of_ne hne]
    exact h.unmade ch hlt.le
  safe := by simp [Cells.set, h.safe, h.isOpen i]

/-- A reader took the value `v` and the channel `ch` of cell `i`. -/
def Seen (c : Cells ι α) (i : ι) (v : α) (ch : Nat) : Prop :=
  c.isClosed ch = false → c.changed i = ch ∧ c.value i = v

omit [DecidableEq ι] in
theorem Seen.read : Seen c i (c.value i) (c.changed i) := fun _ => ⟨rfl, rfl⟩

/-- **A change is announced** to every reader that took the value before. -/
theorem Seen.set (h : Seen c i v ch) : Seen (c.set j w) i v ch := by
  intro hopen
  simp only [Cells.set] at hopen ⊢
  have hne : ch ≠ c.changed j := by
    rintro rfl
    simp at hopen
  rw [Function.update_of_ne hne] at hopen
  obtain ⟨hchanged, hvalue⟩ := h hopen
  have hij : i ≠ j := by
    rintro rfl
    exact hne hchanged.symm
  rw [Function.update_of_ne hij, Function.update_of_ne hij]
  exact ⟨hchanged, hvalue⟩

end RedLease.Lib.Broadcast
