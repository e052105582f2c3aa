import Mathlib.Logic.Function.Basic

/-!
# Mutual exclusion

A mutex is the thread that holds it (`Option α`), and `inside x` says that thread `x` is in a section
that the mutex protects. `Exclusive`: whoever is inside holds the mutex, so at most one thread is.
`Owned`: it is held by the thread that is inside, and by nobody else. `Sharded`: the same of a family
of mutexes, of which each thread takes only one, where `inside` is read off the thread's point.
-/

namespace RedLease.Lib.Mutex

variable {α : Type} {mu : Option α} {inside inside' : α → Prop} {x y : α}

/-- Whoever is inside holds the mutex. -/
def Exclusive (mu : Option α) (inside : α → Prop) : Prop := ∀ x, inside x → mu = some x

theorem Exclusive.unique (h : Exclusive mu inside) (hx : inside x) (hy : inside y) : x = y :=
  Option.some.inj ((h x hx).symm.trans (h y hy))

/-- Nobody is inside while the mutex is free. -/
theorem Exclusive.free (h : Exclusive none inside) : ¬ inside x := fun hx => nomatch h x hx

/-- Nobody enters. -/
theorem Exclusive.mono (h : Exclusive mu inside) (hsub : ∀ x, inside' x → inside x) :
    Exclusive mu inside' :=
  fun x hx => h x (hsub x hx)

/-- A thread locks the free mutex. -/
theorem Exclusive.lock (h : Exclusive none inside) (hin : ∀ y, inside' y → inside y ∨ y = x) :
    Exclusive (some x) inside' := by
  intro y hy
  rcases hin y hy with hold | rfl
  · exact absurd hold h.free
  · rfl

/-- The thread that is inside unlocks the mutex. -/
theorem Exclusive.unlock (h : Exclusive mu inside) (hx : inside x)
    (hout : ∀ y, inside' y → inside y ∧ y ≠ x) : Exclusive none inside' := by
  intro y hy
  obtain ⟨hold, hne⟩ := hout y hy
  exact absurd (h.unique hold hx) hne

/-- The mutex is held by the thread that is inside, and by nobody else. -/
def Owned (mu : Option α) (inside : α → Prop) : Prop := ∀ x, mu = some x ↔ inside x

theorem Owned.free (h : Owned none inside) : ¬ inside x := fun hx => nomatch (h x).mpr hx

/-- Nobody enters or leaves. -/
theorem Owned.congr (h : Owned mu inside) (hin : ∀ x, inside' x ↔ inside x) : Owned mu inside' :=
  fun x => (h x).trans (hin x).symm

/-- A thread locks the free mutex. -/
theorem Owned.lock (h : Owned none inside) (hin : ∀ y, inside' y ↔ inside y ∨ y = x) :
    Owned (some x) inside' := by
  refine fun y => (Iff.trans ?_ (or_iff_right h.free).symm).trans (hin y).symm
  exact ⟨fun heq => (Option.some.inj heq).symm, fun heq => congrArg some heq.symm⟩

/-- The thread that is inside unlocks the mutex. -/
theorem Owned.unlock (h : Owned mu inside) (hx : inside x)
    (hout : ∀ y, inside' y → inside y ∧ y ≠ x) : Owned none inside' := by
  refine fun y => ⟨by nofun, fun hy => ?_⟩
  obtain ⟨hold, hne⟩ := hout y hy
  exact absurd (Option.some.inj (((h y).mpr hold).symm.trans ((h x).mpr hx))) hne

/-! ## A mutex for each shard -/

section Sharded

variable {β κ : Type} {shard : α → κ} {mus : κ → Option α} {isIn : β → Bool} {points : α → β} {b : β}

/-- The mutex of a shard is held by the thread of the shard that is inside. -/
def Sharded (shard : α → κ) (mus : κ → Option α) (isIn : β → Bool) (points : α → β) : Prop :=
  ∀ j, Owned (mus j) fun x => shard x = j ∧ isIn (points x) = true

variable [DecidableEq α]

/-- A thread moves that neither enters nor leaves. -/
theorem Sharded.move (h : Sharded shard mus isIn points) (hb : isIn b = isIn (points x)) :
    Sharded shard mus isIn (Function.update points x b) := by
  refine fun j => (h j).congr fun y => and_congr_right fun _ => ?_
  by_cases hy : y = x
  · rw [hy, Function.update_self, hb]
  · rw [Function.update_of_ne hy]

/-- In other shards nobody moves. -/
theorem Sharded.other (h : Sharded shard mus isIn points) {j : κ} (hj : j ≠ shard x) :
    Owned (mus j) fun y => shard y = j ∧ isIn (Function.update points x b y) = true := by
  refine (h j).congr fun y => and_congr_right fun hy => ?_
  rw [Function.update_of_ne (by rintro rfl; exact hj hy.symm)]

variable [DecidableEq κ]

/-- A thread locks the free mutex of its shard. -/
theorem Sharded.lock (h : Sharded shard mus isIn points) (hfree : mus (shard x) = none)
    (hb : isIn b = true) :
    Sharded shard (Function.update mus (shard x) (some x)) isIn (Function.update points x b) := by
  intro j
  by_cases hj : j = shard x
  · subst hj
    rw [Function.update_self]
    refine (hfree ▸ h (shard x)).lock fun y => ?_
    by_cases hy : y = x
    · simp [hy, hb]
    · simp [hy]
  · rw [Function.update_of_ne hj]
    exact h.other hj

/-- A thread unlocks the mutex of its shard. -/
theorem Sharded.unlock (h : Sharded shard mus isIn points) (hx : isIn (points x) = true)
    (hb : isIn b = false) :
    Sharded shard (Function.update mus (shard x) none) isIn (Function.update points x b) := by
  intro j
  by_cases hj : j = shard x
  · subst hj
    rw [Function.update_self]
    refine (h (shard x)).unlock ⟨rfl, hx⟩ fun y hy => ?_
    by_cases heq : y = x
    · simp [heq, hb] at hy
    · exact ⟨by simpa [heq] using hy, heq⟩
  · rw [Function.update_of_ne hj]
    exact h.other hj

end Sharded

end RedLease.Lib.Mutex
