import RedLease.Client.Lease

/-!
# Release comes last

`Release` flips the lifecycle under `stateMu`, waits for the healing batches in progress, and only
then enqueues its request for each replica. A healer enqueues outside the lock, but it has joined
`healingBatches` under it and while the lease was active, so that nothing of a batch can follow.

* `Lease.Inv`: in each stage of a lease, what may have been enqueued and tried.
* **`Lease.step_inv`**: every step keeps it.
* **`release_last`**: in every run nothing follows the Release in a send queue, it is tried once for
  each replica, and once a call of `Release` has returned nothing is enqueued any more.
-/

namespace RedLease.Client

open Lib

variable {n m : Nat}

namespace Lease

variable {l l' : Lease n m} {quorumSize : Nat} {now : Time} {a : LeaseAct n m} {r : Fin n}

/-- `Release` has not reached replica `r`. -/
structure Quiet (l : Lease n m) (r : Fin n) : Prop where
  sent : Origin.release ∉ l.sent r
  attempts : l.attempts r = 0

/-- `Release` has tried replica `r`, and if its request was accepted it is the last one. -/
structure Ended (l : Lease n m) (r : Fin n) : Prop where
  sent : ∃ before, Origin.release ∉ before ∧
    (l.sent r = before ∨ l.sent r = before ++ [Origin.release])
  attempts : l.attempts r = 1

/-- What the public call knows in each of its stages. -/
def Stage (l : Lease n m) : Prop :=
  match l.main with
  | .releaseWait => l.lifecycle = .released ∧ ∀ r, l.Quiet r
  | .releaseAll todo => l.lifecycle = .released ∧ l.healingBatches = 0 ∧ todo.Nodup ∧
      (∀ r ∈ todo, l.Quiet r) ∧ ∀ r, r ∉ todo → l.Ended r
  | .returned o => (l.lifecycle = .active ∧ o ≠ .released ∧ ∀ r, l.Quiet r) ∨
      (l.lifecycle = .released ∧ l.healingBatches = 0 ∧ ∀ r, l.Ended r)
  | _ => l.lifecycle = .active ∧ ∀ r, l.Quiet r

/-- `healingBatches` counts the batches under way, and `Release` comes last. -/
structure Inv (l : Lease n m) : Prop where
  batches : l.healingBatches = ∑ j, (l.tasks j).batch
  stage : l.Stage

theorem inv_init (key requestedTTLMS : Nat) (now : Time) :
    (init key requestedTTLMS now : Lease n m).Inv where
  batches := by simp [init, Task.batch]
  stage := ⟨rfl, fun _ => ⟨List.not_mem_nil, rfl⟩⟩

/-! ## Steps -/

theorem stage_calling (h : l.main.calling) :
    l.Stage ↔ l.lifecycle = .active ∧ ∀ r, l.Quiet r := by
  unfold Stage
  split
  · rename_i hm; rw [hm] at h; exact h.elim
  · rename_i hm; rw [hm] at h; exact h.elim
  · rename_i hm; rw [hm] at h; exact h.elim
  · rfl

/-- Without a batch in progress no healer is about to enqueue. -/
theorem Inv.no_batch (h : l.Inv) (hb : l.healingBatches = 0) (j : Fin m) :
    (l.tasks j).batch = 0 := by
  have := h.batches
  have := Family.le_sum (fun j => (l.tasks j).batch) j
  omega

theorem Quiet.record (h : l.Quiet r) {request : Option (Request n)}
    (ho : ∀ q, request = some q → q.origin ≠ .release) : (l.record request).Quiet r := by
  cases request with
  | none => exact h
  | some q =>
    refine ⟨?_, h.attempts⟩
    show Origin.release ∉ Function.update l.sent q.replica _ r
    by_cases hr : r = q.replica
    · subst hr
      rw [Function.update_self, List.mem_append, List.mem_singleton]
      rintro (hin | heq)
      · exact h.sent hin
      · exact ho q rfl heq.symm
    · rw [Function.update_of_ne hr]
      exact h.sent

/-- The stage survives what changes neither the call nor the lifecycle, enqueues no Release, and
enqueues nothing at all once no batch is left. -/
theorem Stage.congr (h : l.Stage) (hm : l'.main = l.main) (hl : l'.lifecycle = l.lifecycle)
    (hq : ∀ r, l.Quiet r → l'.Quiet r)
    (hb : l.lifecycle = .released → l.healingBatches = 0 →
      l'.healingBatches = 0 ∧ ∀ r, l.Ended r → l'.Ended r) : l'.Stage := by
  unfold Stage at h ⊢
  rw [hm, hl]
  cases hmain : l.main with
  | releaseWait =>
    rw [hmain] at h
    exact ⟨h.1, fun r => hq r (h.2 r)⟩
  | releaseAll todo =>
    rw [hmain] at h
    obtain ⟨h1, h2, h3, h4, h5⟩ := h
    exact ⟨h1, (hb h1 h2).1, h3, fun r hr => hq r (h4 r hr), fun r hr => (hb h1 h2).2 r (h5 r hr)⟩
  | returned o =>
    rw [hmain] at h
    rcases h with ⟨h1, ho, h2⟩ | ⟨h1, h2, h3⟩
    · exact Or.inl ⟨h1, ho, fun r => hq r (h2 r)⟩
    · exact Or.inr ⟨h1, (hb h1 h2).1, fun r => (hb h1 h2).2 r (h3 r)⟩
  | _ =>
    rw [hmain] at h
    exact ⟨h.1, fun r => hq r (h.2 r)⟩

/-- A background goroutine keeps the count of its batches. -/
theorem TaskStep.batches {j : Fin m} (hs : TaskStep l j l') (h : l.Inv) :
    l'.healingBatches = ∑ i, (l'.tasks i).batch := by
  have hsum : ∀ task, (∑ i, (Function.update l.tasks j task i).batch) + (l.tasks j).batch =
      l.healingBatches + task.batch := fun task => by
    rw [h.batches]
    exact Family.sum_update Task.batch l.tasks j task
  cases hs with
  | quiet confirmedUntil healing task ht hw =>
    have := hsum task
    show l.healingBatches = ∑ i, (Function.update l.tasks j task i).batch
    omega
  | begun task ht hw hactive =>
    have := hsum task
    show l.healingBatches + 1 = ∑ i, (Function.update l.tasks j task i).batch
    omega
  | submitted task ht hw =>
    have := hsum task
    show l.healingBatches = ∑ i, (Function.update l.tasks j task i).batch
    omega
  | ended task ht hw =>
    have := hsum task
    show l.healingBatches - 1 = ∑ i, (Function.update l.tasks j task i).batch
    omega

/-- A background goroutine touches neither the call nor the queues by itself. -/
theorem TaskStep.frame {j : Fin m} (hs : TaskStep l j l') :
    l'.main = l.main ∧ l'.lifecycle = l.lifecycle ∧ l'.sent = l.sent ∧ l'.attempts = l.attempts ∧
      (l.lifecycle = .released → (l.tasks j).batch = 0 → l'.healingBatches = l.healingBatches) := by
  cases hs with
  | quiet confirmedUntil healing task ht hw => exact ⟨rfl, rfl, rfl, rfl, fun _ _ => rfl⟩
  | begun task ht hw hactive =>
    exact ⟨rfl, rfl, rfl, rfl, fun hr => by rw [hactive] at hr; cases hr⟩
  | submitted task ht hw => exact ⟨rfl, rfl, rfl, rfl, fun _ _ => rfl⟩
  | ended task ht hw => exact ⟨rfl, rfl, rfl, rfl, fun _ h0 => by rw [hw] at h0; cases h0⟩

theorem Quiet.congr (h : l.Quiet r) (hs : l'.sent r = l.sent r)
    (ha : l'.attempts r = l.attempts r) : l'.Quiet r :=
  ⟨by rw [hs]; exact h.sent, by rw [ha]; exact h.attempts⟩

theorem Ended.congr (h : l.Ended r) (hs : l'.sent r = l.sent r)
    (ha : l'.attempts r = l.attempts r) : l'.Ended r :=
  ⟨by rw [hs]; exact h.sent, by rw [ha]; exact h.attempts⟩

/-- A background goroutine that enqueues belongs to a batch. -/
theorem task_step_inv {j : Fin m} {b : TaskAct n} (h : l.Inv) (hs : TaskStep l j l') :
    (l'.record (l.outgoing (.task j b))).Inv where
  batches := by
    rw [record_healingBatches, record_tasks]
    exact hs.batches h
  stage := by
    obtain ⟨hm, hl, hsent, hatt, hb⟩ := hs.frame
    refine h.stage.congr (by rw [record_main, hm]) (by rw [record_lifecycle, hl]) ?_ ?_
    · intro r hq
      refine (hq.congr (congrFun hsent r) (congrFun hatt r)).record fun q hq' => ?_
      rcases outgoing_cases hq' with ⟨id, ha, -⟩ | ⟨id, todo, ha, -⟩ | ⟨j', id, -, -, ho⟩
      · cases ha
      · cases ha
      · rw [ho]; nofun
    · intro hreleased h0
      have hnone : l.outgoing (.task j b) = none := by
        cases ho : l.outgoing (.task j b) with
        | none => rfl
        | some q =>
          rcases outgoing_cases ho with ⟨id, ha, -⟩ | ⟨id, todo, ha, -⟩ | ⟨j', id, ha, hw, -⟩
          · cases ha
          · cases ha
          · rw [h.no_batch h0 j'] at hw
            cases hw
      rw [hnone]
      exact ⟨(hb hreleased (h.no_batch h0 j)).trans h0, fun r he =>
        he.congr (congrFun hsent r) (congrFun hatt r)⟩

/-- `Acquire` and `Renew` run while the lease is active, and enqueue no Release of `Release`. -/
theorem call_step_inv (h : l.Inv) (hm : l.main.calling) (hs : CallStep l l') :
    (l'.record (l.outgoing a)).Inv := by
  obtain ⟨hactive, hquiet⟩ := (stage_calling hm).mp h.stage
  have hout : ∀ q, l.outgoing a = some q → q.origin ≠ .release := by
    intro q hq
    rcases outgoing_cases hq with ⟨id, -, -, ho⟩ | ⟨id, todo, -, hall, -⟩ | ⟨j, id, -, -, ho⟩
    · exact ho
    · rw [hall] at hm; exact hm.elim
    · rw [ho]; nofun
  cases hs with
  | moved confirmedUntil main hmain =>
    refine ⟨by rw [record_healingBatches, record_tasks]; exact h.batches, ?_⟩
    rw [stage_calling (by rw [record_main]; exact hmain), record_lifecycle]
    refine ⟨hactive, fun r => Quiet.record ?_ hout⟩
    exact (hquiet r).congr rfl rfl
  | ended validUntil main hmain j task ht hw =>
    have hq : ∀ r, ((({ l with validUntil, main } : Lease n m).setTask j task).record
        (l.outgoing a)).Quiet r := by
      refine fun r => Quiet.record ?_ hout
      exact (hquiet r).congr rfl rfl
    constructor
    · have := Family.sum_update Task.batch l.tasks j task
      have := h.batches
      rw [record_healingBatches, record_tasks]
      show l.healingBatches = ∑ i, (Function.update l.tasks j task i).batch
      omega
    · rcases hmain with rfl | ⟨o, ho, rfl⟩
      · rw [stage_calling (by rw [record_main]; trivial), record_lifecycle]
        exact ⟨hactive, hq⟩
      · unfold Stage
        rw [record_main, record_lifecycle]
        exact Or.inl ⟨hactive, ho, hq⟩

/-- `Release` tries the next replica. -/
theorem attempt_step_inv {requestID : Nat} {accepted : Bool} {todo : List (Fin n)} (h : l.Inv)
    (hm : l.main = .releaseAll (r :: todo)) :
    (({ l with
        attempts := Function.update l.attempts r (l.attempts r + 1)
        main := .releaseAll todo } : Lease n m).record
      (l.outgoing (.submit requestID accepted))).Inv := by
  refine ⟨by rw [record_healingBatches, record_tasks]; exact h.batches, ?_⟩
  have hstage := h.stage
  unfold Stage at hstage ⊢
  rw [hm] at hstage
  obtain ⟨hreleased, h0, hnodup, hquiet, hended⟩ := hstage
  obtain ⟨hr, hnodup⟩ := List.nodup_cons.mp hnodup
  rw [record_main, record_lifecycle, record_healingBatches]
  generalize hl' : ({ l with
      attempts := Function.update l.attempts r (l.attempts r + 1)
      main := .releaseAll todo } : Lease n m).record (l.outgoing (.submit requestID accepted)) = l'
  -- only replica `r` is concerned: it is tried, and its queue may get the Release
  have hatt : l'.attempts = Function.update l.attempts r (l.attempts r + 1) := by
    rw [← hl', record_attempts]
  have hsent : l'.sent r = l.sent r ∨ l'.sent r = l.sent r ++ [Origin.release] := by
    subst hl'
    cases accepted with
    | false => exact Or.inl rfl
    | true =>
      simp only [outgoing, hm]
      exact Or.inr (Function.update_self _ _ _)
  have hother : ∀ r', r' ≠ r → l'.sent r' = l.sent r' := by
    intro r' hne
    subst hl'
    cases accepted with
    | false => rfl
    | true =>
      simp only [outgoing, hm]
      exact Function.update_of_ne hne _ _
  refine ⟨hreleased, h0, hnodup, fun r' hr' => ?_, fun r' hr' => ?_⟩
  · have hne : r' ≠ r := fun heq => hr (heq ▸ hr')
    exact (hquiet r' (List.mem_cons_of_mem _ hr')).congr (hother r' hne)
      (by rw [hatt, Function.update_of_ne hne])
  · by_cases hne : r' = r
    · subst hne
      have hq := hquiet r' List.mem_cons_self
      exact ⟨⟨_, hq.sent, hsent⟩, by rw [hatt, Function.update_self, hq.attempts]⟩
    · have hin : r' ∉ r :: todo := fun hin => (List.mem_cons.mp hin).elim hne hr'
      exact (hended r' hin).congr (hother r' hne) (by rw [hatt, Function.update_of_ne hne])

/-- **Every step keeps the invariant.** -/
theorem step_inv (h : l.Inv) (hs : l.step quorumSize now a = some l') : l'.Inv := by
  obtain ⟨l₁, hmove, rfl⟩ := step_cases hs
  have hstage := h.stage
  cases move_cases hmove with
  | task j b ht => exact task_step_inv h ht
  | call _ hm hc => exact call_step_inv h hm hc
  | renew o start ttlMS hm hactive =>
    unfold Stage at hstage
    rw [hm] at hstage
    rcases hstage with ⟨-, -, hquiet⟩ | ⟨hreleased, -⟩
    · exact ⟨h.batches, hactive, fun r => (hquiet r).congr rfl rfl⟩
    · rw [hactive] at hreleased; cases hreleased
  | refused _ o o' hm hreleased ha =>
    unfold Stage at hstage
    rw [hm] at hstage
    rw [ha]
    rcases hstage with ⟨hactive, -⟩ | ⟨-, h0, hended⟩
    · rw [hactive] at hreleased; cases hreleased
    · exact ⟨h.batches, Or.inr ⟨hreleased, h0, fun r => (hended r).congr rfl rfl⟩⟩
  | release o hm hactive =>
    unfold Stage at hstage
    rw [hm] at hstage
    rcases hstage with ⟨-, -, hquiet⟩ | ⟨hreleased, -⟩
    · exact ⟨h.batches, rfl, fun r => (hquiet r).congr rfl rfl⟩
    · rw [hactive] at hreleased; cases hreleased
  | wait hm hb =>
    unfold Stage at hstage
    rw [hm] at hstage
    refine ⟨h.batches, hstage.1, hb, List.nodup_finRange n, fun r _ => ?_, fun r hr => ?_⟩
    · exact (hstage.2 r).congr rfl rfl
    · exact absurd (List.mem_finRange r) hr
  | attempt requestID accepted r todo hm => exact attempt_step_inv h hm
  | done hm =>
    unfold Stage at hstage
    rw [hm] at hstage
    obtain ⟨hreleased, h0, -, -, hended⟩ := hstage
    refine ⟨h.batches, Or.inr ⟨hreleased, h0, fun r => ?_⟩⟩
    exact (hended r List.not_mem_nil).congr rfl rfl

/-- Once `Release` has returned, a step enqueues nothing. -/
theorem step_after_release (h : l.Inv) {o : Outcome} (hm : l.main = .returned o)
    (hreleased : l.lifecycle = .released) (hs : l.step quorumSize now a = some l') :
    (∃ o', l'.main = .returned o') ∧ l'.lifecycle = .released ∧ l'.sent = l.sent := by
  have hstage := h.stage
  unfold Stage at hstage
  rw [hm] at hstage
  have h0 : l.healingBatches = 0 := by
    rcases hstage with ⟨hactive, -⟩ | ⟨-, h0, -⟩
    · rw [hactive] at hreleased; cases hreleased
    · exact h0
  have hnone : l.outgoing a = none := by
    cases ho : l.outgoing a with
    | none => rfl
    | some q =>
      rcases outgoing_cases ho with ⟨id, -, hc, -⟩ | ⟨id, todo, -, hall, -⟩ | ⟨j, id, -, hw, -⟩
      · rw [hm] at hc; exact hc.elim
      · rw [hm] at hall; cases hall
      · rw [h.no_batch h0 j] at hw; cases hw
  obtain ⟨l₁, hmove, rfl⟩ := step_cases hs
  rw [hnone]
  cases move_cases hmove with
  | task j b ht =>
    obtain ⟨hm', hl, hsent, -⟩ := ht.frame
    exact ⟨⟨o, hm'.trans hm⟩, hl.trans hreleased, hsent⟩
  | call _ hc => rw [hm] at hc; exact hc.elim
  | renew o' start ttlMS hm' hactive => rw [hactive] at hreleased; cases hreleased
  | refused _ o₁ o' => exact ⟨⟨o', rfl⟩, hreleased, rfl⟩
  | release o' hm' hactive => rw [hactive] at hreleased; cases hreleased
  | wait hw | attempt requestID accepted r todo hw | done hw => rw [hm] at hw; cases hw

/-! ## Runs -/

/-- In every stage nothing follows the Release, and it has been tried at most once. -/
theorem Inv.last (h : l.Inv) (r : Fin n) :
    (∀ before after, l.sent r = before ++ Origin.release :: after → after = []) ∧
      l.attempts r ≤ 1 := by
  have hcases : l.Quiet r ∨ l.Ended r := by
    have hstage := h.stage
    unfold Stage at hstage
    split at hstage
    · exact Or.inl (hstage.2 r)
    · rename_i todo hm
      obtain ⟨-, -, -, hquiet, hended⟩ := hstage
      by_cases hr : r ∈ todo
      · exact Or.inl (hquiet r hr)
      · exact Or.inr (hended r hr)
    · rcases hstage with ⟨-, -, hquiet⟩ | ⟨-, -, hended⟩
      · exact Or.inl (hquiet r)
      · exact Or.inr (hended r)
    · exact Or.inl (hstage.2 r)
  rcases hcases with hq | ⟨⟨sent, hnone, hsent⟩, hatt⟩
  · refine ⟨fun before after heq => ?_, hq.attempts.le.trans (Nat.zero_le 1)⟩
    exact absurd (by rw [heq]; simp) hq.sent
  · refine ⟨fun before after heq => ?_, hatt.le⟩
    rcases hsent with hsent | hsent
    · exact absurd (by rw [← hsent, heq]; simp) hnone
    · rcases List.eq_nil_or_concat after with rfl | ⟨rest, x, rfl⟩
      · rfl
      · have heq' : sent ++ [Origin.release] = (before ++ Origin.release :: rest) ++ [x] := by
          rw [← hsent, heq, List.concat_eq_append, List.append_assoc, List.cons_append]
        exact absurd (by rw [List.append_inj_left' heq' rfl]; simp) hnone

/-- A step whose label also has the clock reading. -/
def stepAt (quorumSize : Nat) (l : Lease n m) (a : Time × LeaseAct n m) : Option (Lease n m) :=
  l.step quorumSize a.1 a.2

end Lease

open Lease

/-- **Release comes last.** In every run of a lease, whatever its calls, its goroutines, the clock
and the environment do: in no send queue a request follows the Release that `Lease.Release` enqueued;
that Release is tried at most once for each replica, and has been tried once for each of them when a
call of `Release` returns; and nothing is enqueued after that. -/
theorem release_last (quorumSize key requestedTTLMS : Nat) (t₀ : Time)
    (acts : List (Time × LeaseAct n m)) {l : Lease n m}
    (h : Trans.exec (stepAt quorumSize) (init key requestedTTLMS t₀) acts = some l) :
    (∀ r before after, l.sent r = before ++ Origin.release :: after → after = []) ∧
    (∀ r, l.attempts r ≤ 1) ∧
    (l.main = .returned .released → (∀ r, l.attempts r = 1) ∧
      ∀ (more : List (Time × LeaseAct n m)) (l' : Lease n m),
        Trans.exec (stepAt quorumSize) l more = some l' → l'.sent = l.sent) := by
  have hinv : l.Inv := Trans.exec_invariant (fun hi hs => step_inv hi hs) (inv_init _ _ _) h
  refine ⟨fun r => (hinv.last r).1, fun r => (hinv.last r).2, fun hm => ?_⟩
  have hstage := hinv.stage
  unfold Stage at hstage
  rw [hm] at hstage
  rcases hstage with ⟨-, ho, -⟩ | ⟨hreleased, -, hended⟩
  · exact absurd rfl ho
  · refine ⟨fun r => (hended r).attempts, fun more l' hmore => ?_⟩
    have hend := Trans.exec_invariant (I := fun l₁ : Lease n m => l₁.Inv ∧
        (∃ o, l₁.main = .returned o) ∧ l₁.lifecycle = .released ∧ l₁.sent = l.sent)
      (fun {l₁ a l₂} hi hs => by
        obtain ⟨hi, ⟨o, hm⟩, hreleased, hsent⟩ := hi
        obtain ⟨hm', hreleased', hsent'⟩ := step_after_release hi hm hreleased hs
        exact ⟨step_inv hi hs, hm', hreleased', hsent'.trans hsent⟩)
      ⟨hinv, ⟨_, hm⟩, hreleased, rfl⟩ hmore
    exact hend.2.2.2

/-- Two of three replicas grant the lease and the third fails; `Release` is called while a healing
batch is about to enqueue for it, and a second time at the end. -/
def healedReleaseActs : List (Time × LeaseAct 3 1) :=
  [(0, .submit 1 true), (0, .submit 2 true), (0, .submit 3 true), (0, .check false),
    (1, .receive 0 (some (acquireResponse 1 LeaseStatus.ok 5000)) 0 0),
    (2, .receive 1 (some (acquireResponse 2 LeaseStatus.ok 5000)) 0 0), (2, .commit false 0),
    (3, .task 0 (.receive 2 none 0)), (3, .task 0 (.go true)), (3, .task 0 (.go true)),
    (3, .task 0 (.go true)), (3, .task 0 (.go true)), (3, .task 0 (.go true)),
    (3, .task 0 (.go true)), (4, .release), (4, .task 0 (.submit 4 true)), (4, .task 0 (.go true)),
    (4, .wait), (4, .submit 5 true), (4, .submit 6 false), (4, .submit 7 true), (4, .done),
    (5, .release)]

theorem release_last_healedReleaseActs :
    ∃ l, Trans.exec (stepAt 2) (init 0 5000 0) healedReleaseActs = some l ∧
      (l.sent 1 = [.acquire] ∧ l.sent 2 = [.acquire, .heal, .release]) ∧
      (∀ r, l.attempts r = 1) ∧ ∀ more l', Trans.exec (stepAt 2) l more = some l' →
        l'.sent = l.sent := by
  have hrun : (Trans.exec (stepAt 2) (init 0 5000 0) healedReleaseActs).map
      (fun l => (l.sent 1, l.sent 2, l.main)) =
      some ([.acquire], [.acquire, .heal, .release], .returned .released) := by decide +kernel
  obtain ⟨l, he, hl⟩ := Option.map_eq_some_iff.mp hrun
  simp only [Prod.mk.injEq] at hl
  exact ⟨l, he, ⟨hl.1, hl.2.1⟩, (release_last 2 0 5000 0 _ he).2.2 hl.2.2⟩

end RedLease.Client
