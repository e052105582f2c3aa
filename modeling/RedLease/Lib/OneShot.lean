import Mathlib.Data.List.Nodup
import RedLease.Lib.Family

/-!
# Pooled one-shot cells

Cells that hold one result each and are used again: a requester takes a cell out of the pool, or a new
one, registers for a result, somebody (the carrier) takes the registration away together with the
duty to put a result into the cell, the requester takes the result out and puts the cell back. Only
the registration and the duty are passed on; nobody checks whose cell it is.

* **`Valid.after_move`**: every move keeps the books.
* **`Valid.room`**: who has the duty finds the cell empty.
* **`Valid.pool_clean`**: a cell in the pool is empty and nobody has it.
* **`Valid.settled`**: the result of a requester is settled when its registration is taken away.
-/

namespace RedLease.Lib.OneShot

variable {ι κ ρ : Type} [DecidableEq ι]

/-- Where the result of a requester stands. -/
inductive Stage (κ ρ : Type) where
  | unregistered
  | registered
  /-- The carrier has to put this result into the cell. -/
  | carried (carrier : κ) (result : ρ)
  | given (result : ρ)
  | taken (result : ρ)
  deriving DecidableEq

/-- The results that were put into the cell of a requester. -/
def Stage.results : Stage κ ρ → List ρ
  | .unregistered | .registered | .carried _ _ => []
  | .given result | .taken result => [result]

/-- Who has which cell, and where each result is. -/
structure Books (ι κ ρ : Type) where
  /-- The cell of a requester. -/
  cell : ι → Option Nat
  /-- The requester that a cell was last given to. -/
  label : Nat → ι
  content : Nat → Option ρ
  /-- The number of cells so far. -/
  made : Nat
  pool : List Nat
  stage : ι → Stage κ ρ
  /-- What was put into a cell with the label of a requester. -/
  results : ι → List ρ

/-- What can happen. -/
inductive Move (b : Books ι κ ρ) : Books ι κ ρ → Prop
  /-- The pool forgets a cell. -/
  | forget (n : Nat) : Move b { b with pool := b.pool.eraseIdx n }
  | reuse (x : ι) (n p : Nat) (hfree : b.cell x = none) (hstage : b.stage x = .unregistered)
      (hp : b.pool[n]? = some p) :
      Move b { b with
        cell := Function.update b.cell x (some p)
        label := Function.update b.label p x
        pool := b.pool.eraseIdx n }
  | make (x : ι) (hfree : b.cell x = none) (hstage : b.stage x = .unregistered) :
      Move b { b with
        cell := Function.update b.cell x (some b.made)
        label := Function.update b.label b.made x
        made := b.made + 1 }
  | register (x : ι) (p : Nat) (hp : b.cell x = some p) (hstage : b.stage x = .unregistered) :
      Move b { b with stage := Function.update b.stage x .registered }
  | withdraw (x : ι) (hstage : b.stage x = .registered) :
      Move b { b with stage := Function.update b.stage x .unregistered }
  /-- The carrier takes registrations away, with the same result for all. -/
  | carry (xs : List ι) (carrier : κ) (result : ρ) (hstage : ∀ x ∈ xs, b.stage x = .registered) :
      Move b { b with
        stage := fun x => if x ∈ xs then .carried carrier result else b.stage x }
  | put (x : ι) (p : Nat) (carrier : κ) (result : ρ) (hp : b.cell x = some p)
      (hstage : b.stage x = .carried carrier result) :
      Move b { b with
        content := Function.update b.content p (some result)
        stage := Function.update b.stage x (.given result)
        results := Function.update b.results (b.label p) (b.results (b.label p) ++ [result]) }
  | take (x : ι) (p : Nat) (result : ρ) (hp : b.cell x = some p)
      (hcontent : b.content p = some result) :
      Move b { b with
        content := Function.update b.content p none
        stage := Function.update b.stage x (.taken result) }
  | release (x : ι) (p : Nat) (y : ι) (hp : b.cell x = some p)
      (hstage : b.stage x = .unregistered ∨ ∃ result, b.stage x = .taken result) :
      Move b { b with
        cell := Function.update b.cell x none
        label := Function.update b.label p y
        pool := p :: b.pool }

/-- **The books are right**: cells, owners and results agree. -/
structure Valid (b : Books ι κ ρ) : Prop where
  /-- A cell is labelled with the requester that has it. -/
  owned : ∀ x p, b.cell x = some p → b.label p = x ∧ p < b.made ∧ p ∉ b.pool
  pooled : b.pool.Nodup ∧ ∀ p ∈ b.pool, p < b.made
  /-- A result in a cell is one that its owner was given. -/
  filled : ∀ p result, b.content p = some result →
    ∃ x, b.cell x = some p ∧ b.stage x = .given result
  kept : ∀ x result, b.stage x = .given result →
    ∃ p, b.cell x = some p ∧ b.content p = some result
  /-- A result that is on its way has a cell to go to. -/
  held : ∀ x, b.stage x = .registered ∨ (∃ carrier result, b.stage x = .carried carrier result) →
    ∃ p, b.cell x = some p
  counted : ∀ x, b.results x = (b.stage x).results

variable {b b' : Books ι κ ρ} {x y : ι} {p : Nat} {carrier : κ} {result : ρ}

omit [DecidableEq ι] in
theorem Valid.owner_unique (h : Valid b) (hx : b.cell x = some p) (hy : b.cell y = some p) :
    x = y :=
  (h.owned x p hx).1.symm.trans (h.owned y p hy).1

omit [DecidableEq ι] in
/-- Only a requester that was given a result and has not taken it has one in its cell. -/
theorem Valid.empty (h : Valid b) (hp : b.cell x = some p)
    (hstage : ∀ result, b.stage x ≠ .given result) : b.content p = none := by
  cases hcontent : b.content p with
  | none => rfl
  | some result =>
    obtain ⟨y, hy, hgiven⟩ := h.filled p result hcontent
    rw [h.owner_unique hy hp] at hgiven
    exact absurd hgiven (hstage result)

omit [DecidableEq ι] in
/-- **Who has to put a result finds the cell empty.** -/
theorem Valid.room (h : Valid b) (hp : b.cell x = some p)
    (hstage : b.stage x = .carried carrier result) : b.content p = none :=
  h.empty hp fun _ => by rw [hstage]; nofun

omit [DecidableEq ι] in
/-- **A pooled cell is empty and nobody's.** -/
theorem Valid.pool_clean (h : Valid b) (hp : p ∈ b.pool) :
    b.content p = none ∧ ∀ x, b.cell x ≠ some p := by
  have hnobody : ∀ x, b.cell x ≠ some p := fun x hx => (h.owned x p hx).2.2 hp
  refine ⟨?_, hnobody⟩
  cases hcontent : b.content p with
  | none => rfl
  | some result =>
    obtain ⟨y, hy, -⟩ := h.filled p result hcontent
    exact absurd hy (hnobody y)

/-- A requester gets a cell that nobody has. -/
theorem Valid.assign (h : Valid b) {made : Nat} {pool : List Nat} (hfree : b.cell x = none)
    (hstage : b.stage x = .unregistered) (hmade : b.made ≤ made) (hp : p < made)
    (hnobody : ∀ y, b.cell y ≠ some p) (hpool : pool.Sublist b.pool) (hout : p ∉ pool) :
    Valid { b with
      cell := Function.update b.cell x (some p)
      label := Function.update b.label p x
      made := made
      pool := pool } where
  owned y p' hy := by
    obtain ⟨rfl, rfl⟩ | ⟨-, hold⟩ := Family.update_eq_some hy
    · exact ⟨Function.update_self .., hp, hout⟩
    · obtain ⟨hlabel, hlt, hout'⟩ := h.owned y p' hold
      have hne : p' ≠ p := by
        rintro rfl
        exact hnobody y hold
      refine ⟨?_, hlt.trans_le hmade, fun hin => hout' (hpool.subset hin)⟩
      exact (Function.update_of_ne hne ..).trans hlabel
  pooled :=
    ⟨h.pooled.1.sublist hpool, fun p' hp' => (h.pooled.2 p' (hpool.subset hp')).trans_le hmade⟩
  filled p' result hcontent := by
    obtain ⟨y, hy, hgiven⟩ := h.filled p' result hcontent
    have hne : y ≠ x := by
      rintro rfl
      rw [hfree] at hy
      cases hy
    exact ⟨y, (Function.update_of_ne hne ..).trans hy, hgiven⟩
  kept y result hgiven := by
    obtain ⟨p', hy, hcontent⟩ := h.kept y result hgiven
    have hne : y ≠ x := by
      rintro rfl
      rw [hfree] at hy
      cases hy
    exact ⟨p', (Function.update_of_ne hne ..).trans hy, hcontent⟩
  held y hy := by
    by_cases hyx : y = x
    · subst hyx
      exact ⟨p, Function.update_self ..⟩
    · obtain ⟨p', hp'⟩ := h.held y hy
      exact ⟨p', (Function.update_of_ne hyx ..).trans hp'⟩
  counted := h.counted

omit [DecidableEq ι] in
/-- Before a result is given, the stage can change as long as there is a cell. -/
theorem Valid.restage (h : Valid b) {stage : ι → Stage κ ρ}
    (hstage : ∀ y, stage y = b.stage y ∨
      (b.stage y).results = [] ∧ (stage y).results = [] ∧ ∃ p, b.cell y = some p) :
    Valid { b with stage := stage } where
  owned := h.owned
  pooled := h.pooled
  filled p result hcontent := by
    obtain ⟨y, hy, hgiven⟩ := h.filled p result hcontent
    rcases hstage y with heq | ⟨hnone, -, -⟩
    · exact ⟨y, hy, heq.trans hgiven⟩
    · rw [hgiven] at hnone
      cases hnone
  kept y result hgiven := by
    rcases hstage y with heq | ⟨-, hnone, -⟩
    · exact h.kept y result (heq.symm.trans hgiven)
    · have hgiven' : stage y = .given result := hgiven
      rw [hgiven'] at hnone
      cases hnone
  held y hy := by
    rcases hstage y with heq | ⟨-, -, hcell⟩
    · have hy' : stage y = .registered ∨ ∃ carrier result, stage y = .carried carrier result := hy
      rw [heq] at hy'
      exact h.held y hy'
    · exact hcell
  counted y := by
    rcases hstage y with heq | ⟨hnone, hnone', -⟩
    · exact (h.counted y).trans (congrArg _ heq.symm)
    · exact (h.counted y).trans (hnone.trans hnone'.symm)

theorem Valid.put (h : Valid b) (hp : b.cell x = some p)
    (hstage : b.stage x = .carried carrier result) :
    Valid { b with
      content := Function.update b.content p (some result)
      stage := Function.update b.stage x (.given result)
      results := Function.update b.results (b.label p) (b.results (b.label p) ++ [result]) } where
  owned := h.owned
  pooled := h.pooled
  filled p' result' hcontent := by
    obtain ⟨rfl, rfl⟩ | ⟨hne, hold⟩ := Family.update_eq_some hcontent
    · exact ⟨x, hp, Function.update_self ..⟩
    · obtain ⟨y, hy, hgiven⟩ := h.filled p' result' hold
      refine ⟨y, hy, ?_⟩
      refine (Function.update_of_ne ?_ ..).trans hgiven
      rintro rfl
      exact hne (Option.some.inj (hy.symm.trans hp))
  kept y result' hgiven := by
    by_cases hyx : y = x
    · subst hyx
      cases (Function.update_self ..).symm.trans hgiven
      exact ⟨p, hp, Function.update_self ..⟩
    · obtain ⟨p', hy, hcontent⟩ :=
        h.kept y result' ((Function.update_of_ne hyx ..).symm.trans hgiven)
      refine ⟨p', hy, ?_⟩
      refine (Function.update_of_ne ?_ ..).trans hcontent
      rintro rfl
      exact hyx (h.owner_unique hy hp)
  held y hy := by
    by_cases hyx : y = x
    · subst hyx
      exact ⟨p, hp⟩
    · dsimp only at hy
      rw [Function.update_of_ne hyx] at hy
      exact h.held y hy
  counted y := by
    dsimp only
    rw [(h.owned x p hp).1]
    by_cases hyx : y = x
    · subst hyx
      rw [Function.update_self, Function.update_self, h.counted, hstage]
      rfl
    · rw [Function.update_of_ne hyx, Function.update_of_ne hyx]
      exact h.counted y

theorem Valid.take (h : Valid b) (hp : b.cell x = some p) (hcontent : b.content p = some result) :
    Valid { b with
      content := Function.update b.content p none
      stage := Function.update b.stage x (.taken result) } where
  owned := h.owned
  pooled := h.pooled
  filled p' result' hcontent' := by
    have hne : p' ≠ p := by
      rintro rfl
      cases (Function.update_self ..).symm.trans hcontent'
    obtain ⟨y, hy, hgiven⟩ :=
      h.filled p' result' ((Function.update_of_ne hne ..).symm.trans hcontent')
    refine ⟨y, hy, ?_⟩
    refine (Function.update_of_ne ?_ ..).trans hgiven
    rintro rfl
    exact hne (Option.some.inj (hy.symm.trans hp))
  kept y result' hgiven := by
    have hyx : y ≠ x := by
      rintro rfl
      cases (Function.update_self ..).symm.trans hgiven
    obtain ⟨p', hy, hcontent'⟩ :=
      h.kept y result' ((Function.update_of_ne hyx ..).symm.trans hgiven)
    refine ⟨p', hy, ?_⟩
    refine (Function.update_of_ne ?_ ..).trans hcontent'
    rintro rfl
    exact hyx (h.owner_unique hy hp)
  held y hy := by
    by_cases hyx : y = x
    · subst hyx
      exact ⟨p, hp⟩
    · dsimp only at hy
      rw [Function.update_of_ne hyx] at hy
      exact h.held y hy
  counted y := by
    obtain ⟨z, hz, hgiven⟩ := h.filled p result hcontent
    obtain rfl := h.owner_unique hz hp
    dsimp only
    by_cases hyx : y = z
    · subst hyx
      rw [Function.update_self, h.counted, hgiven]
      rfl
    · rw [Function.update_of_ne hyx]
      exact h.counted y

theorem Valid.release (h : Valid b) (hp : b.cell x = some p)
    (hstage : b.stage x = .unregistered ∨ ∃ result, b.stage x = .taken result) :
    Valid { b with
      cell := Function.update b.cell x none
      label := Function.update b.label p y
      pool := p :: b.pool } where
  owned z p' hz := by
    have hzx : z ≠ x := by
      rintro rfl
      cases (Function.update_self ..).symm.trans hz
    replace hz : b.cell z = some p' := (Function.update_of_ne hzx ..).symm.trans hz
    have hne : p' ≠ p := by
      rintro rfl
      exact hzx (h.owner_unique hz hp)
    obtain ⟨hlabel, hlt, hout⟩ := h.owned z p' hz
    refine ⟨(Function.update_of_ne hne ..).trans hlabel, hlt, ?_⟩
    exact fun hin => (List.mem_cons.mp hin).elim hne hout
  pooled := by
    obtain ⟨-, hlt, hout⟩ := h.owned x p hp
    refine ⟨List.nodup_cons.mpr ⟨hout, h.pooled.1⟩, fun p' hp' => ?_⟩
    rcases List.mem_cons.mp hp' with rfl | hp'
    · exact hlt
    · exact h.pooled.2 p' hp'
  filled p' result hcontent := by
    obtain ⟨z, hz, hgiven⟩ := h.filled p' result hcontent
    refine ⟨z, ?_, hgiven⟩
    refine (Function.update_of_ne ?_ ..).trans hz
    rintro rfl
    rw [hgiven] at hstage
    rcases hstage with hstage | ⟨_, hstage⟩ <;> cases hstage
  kept z result hgiven := by
    obtain ⟨p', hz, hcontent⟩ := h.kept z result hgiven
    refine ⟨p', ?_, hcontent⟩
    refine (Function.update_of_ne ?_ ..).trans hz
    rintro rfl
    have hgiven' : b.stage z = .given result := hgiven
    rw [hgiven'] at hstage
    rcases hstage with hstage | ⟨_, hstage⟩ <;> cases hstage
  held z hz := by
    obtain ⟨p', hp'⟩ := h.held z hz
    refine ⟨p', ?_⟩
    refine (Function.update_of_ne ?_ ..).trans hp'
    rintro rfl
    rcases hstage with hstage | ⟨_, hstage⟩
    · rcases hz with hz | ⟨_, _, hz⟩ <;> cases hstage.symm.trans hz
    · rcases hz with hz | ⟨_, _, hz⟩ <;> cases hstage.symm.trans hz
  counted := h.counted

/-- **Every move keeps the books.** -/
theorem Valid.after_move (h : Valid b) (hm : Move b b') : Valid b' := by
  cases hm with
  | forget n =>
    refine ⟨fun x p hp => ?_, ⟨h.pooled.1.sublist (List.eraseIdx_sublist _ _), fun p hp =>
      h.pooled.2 p (List.mem_of_mem_eraseIdx hp)⟩, h.filled, h.kept, h.held, h.counted⟩
    obtain ⟨hlabel, hlt, hout⟩ := h.owned x p hp
    exact ⟨hlabel, hlt, fun hin => hout (List.mem_of_mem_eraseIdx hin)⟩
  | reuse x n p hfree hstage hp =>
    obtain ⟨hn, rfl⟩ := List.getElem?_eq_some_iff.mp hp
    have hin : b.pool[n] ∈ b.pool := List.getElem_mem hn
    refine h.assign hfree hstage (Nat.le_refl _) (h.pooled.2 _ hin) (h.pool_clean hin).2
      (List.eraseIdx_sublist _ _) ?_
    have hnodup := (List.getElem_cons_eraseIdx_perm hn).nodup_iff.mpr h.pooled.1
    exact (List.nodup_cons.mp hnodup).1
  | make x hfree hstage =>
    refine h.assign hfree hstage (Nat.le_succ _) (Nat.lt_succ_self _) (fun y hy => ?_)
      (List.Sublist.refl _) fun hin => ?_
    · exact lt_irrefl _ (h.owned y _ hy).2.1
    · exact lt_irrefl _ (h.pooled.2 _ hin)
  | register x p hp hstage =>
    refine h.restage fun y => ?_
    by_cases hyx : y = x
    · subst hyx
      exact Or.inr ⟨by rw [hstage]; rfl, by rw [Function.update_self]; rfl, p, hp⟩
    · exact Or.inl (Function.update_of_ne hyx ..)
  | withdraw x hstage =>
    refine h.restage fun y => ?_
    by_cases hyx : y = x
    · subst hyx
      exact Or.inr ⟨by rw [hstage]; rfl, by rw [Function.update_self]; rfl,
        h.held y (Or.inl hstage)⟩
    · exact Or.inl (Function.update_of_ne hyx ..)
  | carry xs carrier result hstage =>
    refine h.restage fun y => ?_
    by_cases hy : y ∈ xs
    · exact Or.inr ⟨by rw [hstage y hy]; rfl, by rw [if_pos hy]; rfl,
        h.held y (Or.inl (hstage y hy))⟩
    · exact Or.inl (if_neg hy)
  | put x p carrier result hp hstage => exact h.put hp hstage
  | take x p result hp hcontent => exact h.take hp hcontent
  | release x p y hp hstage => exact h.release hp hstage

/-- The stage has the result of the requester, from when a carrier has it on. -/
def Stage.Has (result : ρ) : Stage κ ρ → Prop
  | .carried _ result' | .given result' | .taken result' => result' = result
  | .unregistered | .registered => False

/-- **A result is settled by the carrier that takes the registration**, in that move. -/
theorem Valid.settled (h : Valid b) (hm : Move b b') (hbefore : ¬ (b.stage x).Has result)
    (hafter : (b'.stage x).Has result) :
    b.stage x = .registered ∧ b'.cell x = b.cell x ∧
      ∃ carrier, b'.stage x = .carried carrier result := by
  cases hm with
  | forget n | reuse y n p hfree hstage hp | make y hfree hstage | release y p z hp hstage =>
    exact absurd hafter hbefore
  | register y p hp hstage | withdraw y hstage =>
    by_cases hxy : x = y
    · subst hxy
      simp [Stage.Has] at hafter
    · simp only [Function.update_of_ne hxy] at hafter
      exact absurd hafter hbefore
  | carry xs carrier result' hstage =>
    by_cases hx : x ∈ xs
    · simp only [if_pos hx] at hafter ⊢
      have heq : result' = result := hafter
      exact ⟨hstage x hx, trivial, carrier, by rw [heq]⟩
    · simp only [if_neg hx] at hafter
      exact absurd hafter hbefore
  | put y p carrier result' hp hstage =>
    by_cases hxy : x = y
    · subst hxy
      simp only [Function.update_self] at hafter
      rw [hstage] at hbefore
      exact absurd hafter hbefore
    · simp only [Function.update_of_ne hxy] at hafter
      exact absurd hafter hbefore
  | take y p result' hp hcontent =>
    by_cases hxy : x = y
    · subst hxy
      simp only [Function.update_self] at hafter
      obtain ⟨z, hz, hgiven⟩ := h.filled p result' hcontent
      rw [h.owner_unique hz hp] at hgiven
      rw [hgiven] at hbefore
      exact absurd hafter hbefore
    · simp only [Function.update_of_ne hxy] at hafter
      exact absurd hafter hbefore

end RedLease.Lib.OneShot
