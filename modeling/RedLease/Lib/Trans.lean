import Mathlib.Data.List.Induction
import Mathlib.Logic.Function.Basic

/-!
# Executions of a partial step function

A system of concurrent threads is a step function `σ → α → Option σ`: a label says which thread
moves and how it resolves its choices, and `none` means that it cannot. `exec` runs a list of labels.

* `exec_append` splits a run at an instant.
* **`exec_invariant`** is the induction over a run.
* `exec_history` is the same for what relates a state to the run so far.
* **`exec_along`** is the same for what survives only while every step of the run meets a
  condition.
* **`exec_first`** finds the step of a run that makes something true.
* **`exec_reaches`** builds a run to a goal out of short runs that make progress.

Runs of small systems are evaluated (`decidableAlong`, `decidableEnds`).
-/

namespace RedLease.Lib.Trans

universe u v

variable {σ : Type u} {α : Type v} {step : σ → α → Option σ}

/-- For the literals of `Fin n` in runs of small systems that are written out. -/
instance neZero_one : @NeZero Nat Zero.ofOfNat0 1 := ⟨Nat.one_ne_zero⟩

@[inherit_doc neZero_one]
instance neZero_two : @NeZero Nat Zero.ofOfNat0 2 := ⟨Nat.succ_ne_zero 1⟩

@[inherit_doc neZero_one]
instance neZero_three : @NeZero Nat Zero.ofOfNat0 3 := ⟨Nat.succ_ne_zero 2⟩

/-- Runs the labels in order. -/
def exec (step : σ → α → Option σ) : σ → List α → Option σ
  | s, [] => some s
  | s, a :: rest =>
    match step s a with
    | some s' => exec step s' rest
    | none => none

/-- Every step of the run meets `P`, in the state in which it is taken. -/
def Along (step : σ → α → Option σ) (P : σ → α → Prop) : σ → List α → Prop
  | _, [] => True
  | s, a :: rest => P s a ∧ ∀ s', step s a = some s' → Along step P s' rest

@[simp] theorem exec_nil (s : σ) : exec step s [] = some s := rfl

theorem exec_cons {s s' : σ} {a : α} {rest : List α} :
    exec step s (a :: rest) = some s' ↔ ∃ s₁, step s a = some s₁ ∧ exec step s₁ rest = some s' := by
  rw [exec]
  cases step s a with
  | none => simp
  | some s₁ => simp

theorem exec_append {s s' : σ} {as bs : List α} :
    exec step s (as ++ bs) = some s' ↔
      ∃ s₁, exec step s as = some s₁ ∧ exec step s₁ bs = some s' := by
  induction as generalizing s with
  | nil => simp
  | cons a as ih =>
    rw [List.cons_append, exec_cons]
    constructor
    · rintro ⟨s₁, h1, h2⟩
      obtain ⟨s₂, h3, h4⟩ := ih.mp h2
      refine ⟨s₂, ?_, h4⟩
      rw [exec_cons]
      exact ⟨s₁, h1, h3⟩
    · rintro ⟨s₂, h1, h2⟩
      rw [exec_cons] at h1
      obtain ⟨s₁, h3, h4⟩ := h1
      exact ⟨s₁, h3, ih.mpr ⟨s₂, h4, h2⟩⟩

theorem along_append {P : σ → α → Prop} {s s' : σ} {as bs : List α}
    (h : Along step P s (as ++ bs)) (he : exec step s as = some s') : Along step P s' bs := by
  induction as generalizing s with
  | nil =>
    cases he
    exact h
  | cons a as ih =>
    rw [exec_cons] at he
    obtain ⟨s₁, h1, h2⟩ := he
    exact ih (h.2 s₁ h1) h2

theorem along_left {P : σ → α → Prop} {s : σ} {as bs : List α} (h : Along step P s (as ++ bs)) :
    Along step P s as := by
  induction as generalizing s with
  | nil => trivial
  | cons a as ih => exact ⟨h.1, fun s₁ hs => ih (h.2 s₁ hs)⟩

instance decidableAlong {P : σ → α → Prop} [∀ s a, Decidable (P s a)] :
    (s : σ) → (as : List α) → Decidable (Along step P s as)
  | _, [] => .isTrue trivial
  | s, a :: rest =>
    match hs : step s a with
    | none =>
      decidable_of_iff (P s a) ⟨fun h => ⟨h, fun _ h' => by rw [hs] at h'; cases h'⟩, And.left⟩
    | some s₁ =>
      have : Decidable (Along step P s₁ rest) := decidableAlong s₁ rest
      decidable_of_iff (P s a ∧ Along step P s₁ rest)
        ⟨fun h => ⟨h.1, fun _ h' => by rw [hs] at h'; cases h'; exact h.2⟩,
          fun h => ⟨h.1, h.2 s₁ hs⟩⟩

/-- A run is evaluated to decide what holds at its end. -/
instance decidableEnds {P : σ → Prop} [DecidablePred P] (o : Option σ) :
    Decidable (∃ s, o = some s ∧ P s) :=
  match o with
  | none => .isFalse (by rintro ⟨s, ⟨⟩, -⟩)
  | some s => decidable_of_iff (P s) ⟨fun h => ⟨s, rfl, h⟩, by rintro ⟨_, ⟨⟩, h⟩; exact h⟩

/-- **What every step that meets `P` preserves** holds at the end of a run of such steps. -/
theorem exec_along {P : σ → α → Prop} {I : σ → Prop}
    (hI : ∀ {s a s'}, I s → P s a → step s a = some s' → I s') {as : List α} {s s' : σ} (h : I s)
    (hP : Along step P s as) (he : exec step s as = some s') : I s' := by
  induction as generalizing s with
  | nil =>
    cases he
    exact h
  | cons a as ih =>
    rw [exec_cons] at he
    obtain ⟨s₁, h1, h2⟩ := he
    exact ih (hI h hP.1 h1) (hP.2 s₁ h1) h2

/-- **An invariant of the steps is an invariant of the runs.** -/
theorem exec_invariant {I : σ → Prop} (hI : ∀ {s a s'}, I s → step s a = some s' → I s')
    {as : List α} {s s' : σ} (h : I s) (he : exec step s as = some s') : I s' := by
  induction as generalizing s with
  | nil =>
    cases he
    exact h
  | cons a as ih =>
    rw [exec_cons] at he
    obtain ⟨s₁, h1, h2⟩ := he
    exact ih (hI h h1) h2

/-- The same for what relates the state to the run so far. -/
theorem exec_history {I : List α → σ → Prop} {s : σ} (h : I [] s)
    (hI : ∀ {as s₁ a s₂}, exec step s as = some s₁ → I as s₁ → step s₁ a = some s₂ →
      I (as ++ [a]) s₂) {as : List α} {s' : σ} (he : exec step s as = some s') : I as s' := by
  induction as using List.reverseRecOn generalizing s' with
  | nil =>
    cases he
    exact h
  | append_singleton as a ih =>
    rw [exec_append] at he
    obtain ⟨s₁, h1, h2⟩ := he
    rw [exec_cons] at h2
    obtain ⟨s₂, h3, h4⟩ := h2
    cases h4
    exact hI h1 (ih h1) h3

/-- **What a run makes true, one of its steps makes true.** -/
theorem exec_first {Q : σ → Prop} {as : List α} {s s' : σ} (h : ¬ Q s) (h' : Q s')
    (he : exec step s as = some s') :
    ∃ before a after s₁ s₂, exec step s before = some s₁ ∧ step s₁ a = some s₂ ∧
      exec step s₂ after = some s' ∧ ¬ Q s₁ ∧ Q s₂ := by
  induction as generalizing s with
  | nil =>
    cases he
    exact absurd h' h
  | cons a as ih =>
    rw [exec_cons] at he
    obtain ⟨s₁, h1, h2⟩ := he
    by_cases hq : Q s₁
    · exact ⟨[], a, as, s, s₁, rfl, h1, h2, h, hq⟩
    · obtain ⟨before, b, after, s₂, s₃, hb, hs, ha, hq₂, hq₃⟩ := ih hq h2
      refine ⟨a :: before, b, after, s₂, s₃, ?_, hs, ha, hq₂, hq₃⟩
      rw [exec_cons]
      exact ⟨s₁, h1, hb⟩

/-- Some run of allowed labels ends in `G`. -/
def Can (step : σ → α → Option σ) (P : α → Prop) (G : σ → Prop) (s : σ) : Prop :=
  ∃ as s', (∀ a ∈ as, P a) ∧ exec step s as = some s' ∧ G s'

section Can

variable {P : α → Prop} {G H : σ → Prop} {s s' : σ}

theorem Can.now (h : G s) : Can step P G s := ⟨[], s, nofun, rfl, h⟩

theorem Can.next {a : α} (hs : step s a = some s') (ha : P a) (h : Can step P G s') :
    Can step P G s := by
  obtain ⟨as, t, has, he, hg⟩ := h
  refine ⟨a :: as, t, List.forall_mem_cons.mpr ⟨ha, has⟩, ?_, hg⟩
  rw [exec_cons]
  exact ⟨s', hs, he⟩

theorem Can.trans (h : Can step P G s) (hg : ∀ s', G s' → Can step P H s') : Can step P H s := by
  obtain ⟨as, s₁, has, he, h₁⟩ := h
  obtain ⟨bs, s₂, hbs, he', h₂⟩ := hg s₁ h₁
  refine ⟨as ++ bs, s₂, List.forall_mem_append.mpr ⟨has, hbs⟩, ?_, h₂⟩
  rw [exec_append]
  exact ⟨s₁, he, he'⟩

end Can

/-- **Progress reaches the goal**: if short runs of allowed labels decrease a well-founded measure
until `G` holds, then some run of allowed labels ends in `G`. -/
theorem exec_reaches {β : Type*} {r : β → β → Prop} (hr : WellFounded r) (m : σ → β)
    {I G : σ → Prop} {P : α → Prop}
    (hprogress : ∀ s, I s → G s ∨ ∃ as s', (∀ a ∈ as, P a) ∧ exec step s as = some s' ∧ I s' ∧
      r (m s') (m s)) {s : σ} (h : I s) :
    ∃ as s', (∀ a ∈ as, P a) ∧ exec step s as = some s' ∧ I s' ∧ G s' := by
  induction hm : m s using hr.induction generalizing s with
  | _ x ih =>
    subst hm
    rcases hprogress s h with hg | ⟨as, s₁, has, he, h₁, hlt⟩
    · exact ⟨[], s, nofun, rfl, h, hg⟩
    · have hfirst : Can step P (· = s₁) s := ⟨as, s₁, has, he, rfl⟩
      exact hfirst.trans fun _ heq => heq ▸ ih (m s₁) hlt h₁ rfl

end RedLease.Lib.Trans
