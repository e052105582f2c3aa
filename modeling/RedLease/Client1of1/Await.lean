import RedLease.Client1of1.Completion

/-!
# Every call gets its own result

What the callers of `await` see, in any run of the model of the futures.

* **`Inv.returns`**: a call in `await` can return without help from the server.
* **`futures_never_cross`**: every call gets one result, its own; a pooled future is clean; and no
  completer waits for room.
-/

namespace RedLease.Client1of1.Futures

open Client (pendingShardCount pendingShardIndex)
open Lib

variable {ρ : Type} {s s' : State ρ}

/-! ## What callers see -/

/-- In this run the entry of request `r` was removed by a completer with this result. -/
def RemovedWith (acts : List (Act ρ)) (r : Nat) (result : Result ρ) : Prop :=
  ∃ before a after s₁ s₂ ch carrier, acts = before ++ a :: after ∧
    Trans.exec step State.init before = some s₁ ∧ step s₁ a = some s₂ ∧
    At s₁ .registered r ch ∧ At s₂ (.carried carrier result) r ch

theorem RemovedWith.append {acts : List (Act ρ)} {r : Nat} {result : Result ρ}
    (h : RemovedWith acts r result) (a : Act ρ) : RemovedWith (acts ++ [a]) r result := by
  obtain ⟨before, b, after, s₁, s₂, ch, carrier, rfl, hrest⟩ := h
  exact ⟨before, b, after ++ [a], s₁, s₂, ch, carrier, by simp, hrest⟩

theorem inv_of_run {acts : List (Act ρ)} (hrun : Trans.exec step State.init acts = some s) :
    Inv s :=
  Trans.exec_invariant (I := Inv) (fun h hs => h.after_step (step_cases hs)) Inv.init hrun

/-- The result that a request has is that of the completer that removed its entry. -/
theorem removedWith_of_has {acts : List (Act ρ)}
    (hrun : Trans.exec step State.init acts = some s) (r : Nat) (result : Result ρ)
    (hhas : (s.stages r).Has result) : RemovedWith acts r result := by
  refine Trans.exec_history (I := fun acts s => ∀ r result, (s.stages r).Has result →
    RemovedWith acts r result) (by nofun) ?_ hrun r result hhas
  intro acts s₁ a s₂ hrun₁ hremoved hs r result hhas₂
  by_cases hhas₁ : (s₁.stages r).Has result
  · exact (hremoved r result hhas₁).append a
  · have hinv := inv_of_run hrun₁
    have hinv₂ := hinv.after_step (step_cases hs)
    rcases hinv.move (step_cases hs) with heq | hm
    · have hstages : s₂.stages = s₁.stages := congrArg OneShot.Books.stage heq
      rw [hstages] at hhas₂
      exact absurd hhas₂ hhas₁
    · obtain ⟨hbefore, hcell, carrier, hafter⟩ := hinv.books.settled hm hhas₁ hhas₂
      obtain ⟨ch, hch⟩ := hinv.books.held r (Or.inl hbefore)
      exact ⟨acts, a, [], s₁, s₂, ch, carrier, rfl, hrun₁, hs,
        (hinv.tracked.at_iff _ _ _).mpr ⟨Or.inl rfl, hbefore, hch⟩,
        (hinv₂.tracked.at_iff _ _ _).mpr ⟨Or.inr ⟨_, _, rfl⟩, hafter, hcell.trans hch⟩⟩

/-- The result is that of request `r`: the only one that was sent to its future, the one with which
its entry was removed, and if it is a response it has its request ID. -/
structure OwnResult (acts : List (Act ρ)) (s : State ρ) (r : Nat) (result : Result ρ) : Prop where
  only : s.results r = [result]
  removed : RemovedWith acts r result
  named : ∀ r' body, result = .response r' body → r' = r

theorem ownResult_of_stage {acts : List (Act ρ)}
    (hrun : Trans.exec step State.init acts = some s) {r : Nat} {result : Result ρ}
    (hstage : s.stages r = .given result ∨ s.stages r = .taken result) :
    OwnResult acts s r result := by
  have hinv := inv_of_run hrun
  refine ⟨?_, removedWith_of_has hrun r result ?_, ?_⟩
  · refine (hinv.books.counted r).trans ?_
    show (s.stages r).results = [result]
    rcases hstage with hstage | hstage <;> (rw [hstage]; rfl)
  · rcases hstage with hstage | hstage <;> (rw [hstage]; rfl)
  · rintro r' body rfl
    have hnamed := hinv.tracked.named r
    rcases hstage with hstage | hstage <;> (rw [hstage] at hnamed; exact hnamed)

/-- The future with which the call waits in `await`. -/
def Call.waits : Call ρ → Option Nat
  | .awaiting f | .givingUp f _ | .completing f _ _ | .receiving f => some f
  | _ => none

theorem Call.future_of_waits {c : Call ρ} {f : Nat} (h : c.waits = some f) :
    c.future = some f := by
  cases c with
  | awaiting | givingUp | completing | receiving => exact h
  | idle | entering | checking | registered | leaving | refused | received | returned | ended =>
    cases h

/-- A call that waits has registered and has not taken its result. -/
theorem Fits.of_waits {c : Call ρ} {st : OneShot.Stage Completer (Result ρ)} {f : Nat}
    (h : Fits c st) (hc : c.waits = some f) :
    st ≠ .unregistered ∧ ∀ result, st ≠ .taken result := by
  cases c with
  | awaiting | givingUp => exact ⟨h.1, h.2.2⟩
  | receiving => exact ⟨h.1.1, h.1.2.2⟩
  | completing => exact ⟨by rw [h.1]; nofun, fun _ => by rw [h.1]; nofun⟩
  | idle | entering | checking | registered | leaving | refused | received | returned | ended =>
    cases hc

/-- A call that waits has no result yet, and its channel is in the map or with a completer; or it has
its result in the channel. -/
theorem waiting_cases {acts : List (Act ρ)} (hrun : Trans.exec step State.init acts = some s)
    {r f : Nat} (hr : (s.calls r).waits = some f) :
    (s.results r = [] ∧ ((r, f) ∈ s.entries (pendingShardIndex r) ∨
      ∃ carrier result, At s (.carried carrier result) r f)) ∨
    ∃ result, s.channel f = some result ∧ OwnResult acts s r result := by
  have hinv := inv_of_run hrun
  have hcell : s.cell r = some f := Call.future_of_waits hr
  have hcounted : s.results r = (s.stages r).results := hinv.books.counted r
  obtain ⟨hregistered, htaken⟩ := (hinv.tracked.fits r).of_waits hr
  cases hstage : s.stages r with
  | unregistered => exact absurd hstage hregistered
  | registered =>
    have hat := (hinv.tracked.at_iff _ _ _).mpr ⟨Or.inl rfl, hstage, hcell⟩
    rw [hstage] at hcounted
    cases hat with
    | entry _ _ hmem => exact Or.inl ⟨hcounted, Or.inl hmem⟩
  | carried carrier result =>
    rw [hstage] at hcounted
    exact Or.inl ⟨hcounted, Or.inr ⟨carrier, result,
      (hinv.tracked.at_iff _ _ _).mpr ⟨Or.inr ⟨_, _, rfl⟩, hstage, hcell⟩⟩⟩
  | given result =>
    obtain ⟨f', hf', hcontent⟩ := hinv.books.kept r result hstage
    obtain rfl := Option.some.inj (hcell.symm.trans hf')
    exact Or.inr ⟨result, hcontent, ownResult_of_stage hrun (Or.inl hstage)⟩
  | taken result => exact absurd hstage (htaken result)

/-- Whoever is about to send finds room. -/
theorem Inv.room (h : Inv s) {carrier : Completer} {result : Result ρ} {r ch : Nat}
    (hat : At s (.carried carrier result) r ch) : s.channel ch = none := by
  obtain ⟨-, hstage, hcell⟩ := (h.tracked.at_iff _ _ _).mp hat
  exact h.books.room hcell hstage

/-! ## A call in `await` can return -/

/-- The steps of the goroutines that have begun: no call, response or `Close` begins. -/
def Act.inside : Act ρ → Bool
  | .submit _ _ | .submitNoResponse _ | .respond _ _ | .close | .drop _ => false
  | _ => true

/-- Request `r` can return from `await` by such steps. -/
def Returns (r : Nat) (s : State ρ) : Prop :=
  Trans.Can step (fun a => a.inside = true) (fun s => ∃ result, s.calls r = .returned result) s

theorem returns_of_received {r f : Nat} {result : Result ρ} (hr : s.calls r = .received f result) :
    Returns r s := by
  have hs : step s (.release r) = some ((s.releaseFuture f).setCall r (.returned result)) := by
    simp only [step, hr]
  exact .next hs rfl (.now ⟨result, Function.update_self ..⟩)

theorem returns_of_channel {r f : Nat} {result : Result ρ} (hr : s.calls r = .receiving f)
    (hf : s.channel f = some result) : Returns r s := by
  have hs : step s (.receive r) = some { (s.setCall r (.received f result)).setStage r
      (.taken result) with channel := Function.update s.channel f none } := by
    simp only [step, hr, hf]
  exact .next hs rfl (returns_of_received (f := f) (Function.update_self ..))

theorem getElem?_of_mem_todo {e : Nat × Nat} (h : e ∈ s.todo) :
    ∃ j todo, s.closer = .sending j todo ∧ ∃ n : Nat, todo[n]? = some e := by
  cases hclose : s.closer with
  | idle | shard =>
    rw [State.todo, hclose] at h
    exact absurd h List.not_mem_nil
  | sending j todo =>
    rw [State.todo, hclose] at h
    exact ⟨j, todo, rfl, List.mem_iff_getElem?.mp h⟩

/-- The worker or `Close` sends what it carries, if it has not. -/
theorem Inv.returns_of_receiving (h : Inv s) {r f : Nat} (hr : s.calls r = .receiving f) :
    Returns r s := by
  have hfits := h.tracked.fits r
  rw [hr] at hfits
  have hcell : s.cell r = some f := by rw [State.cell, hr]; rfl
  cases hstage : s.stages r with
  | unregistered => exact absurd hstage hfits.1.1
  | registered => exact absurd hstage hfits.2
  | taken result => exact absurd hstage (hfits.1.2.2 result)
  | given result =>
    obtain ⟨f', hf', hcontent⟩ := h.books.kept r result hstage
    obtain rfl := Option.some.inj (hcell.symm.trans hf')
    exact returns_of_channel hr hcontent
  | carried carrier result =>
    have hat := (h.tracked.at_iff _ _ _).mpr ⟨Or.inr ⟨carrier, result, rfl⟩, hstage, hcell⟩
    have hroom := h.room hat
    cases hat with
    | worker _ _ body hw =>
      have hs : step s (.work (pendingShardIndex r)) = some (((s.send f (.response r body)).setWorker
          (pendingShardIndex r) .waiting).setStage r (.given (.response r body))) := by
        simp only [step, workStep, hw, hroom]
      exact .next hs rfl (returns_of_channel hr (Function.update_self ..))
    | caller _ f' _ cause hc =>
      rw [hr] at hc
      cases hc
    | closer _ _ hmem =>
      obtain ⟨j, todo, hclose, n, hn⟩ := getElem?_of_mem_todo hmem
      have hs : step s (.fail n) = some { (s.send f (.error .clientClosed)).setStage r
          (.given (.error .clientClosed)) with closer := .sending j (todo.eraseIdx n) } := by
        simp only [step, failStep, hclose, hn, hroom]
      exact .next hs rfl (returns_of_channel hr (Function.update_self ..))

theorem Inv.returns_of_completing (h : Inv s) {r f ch : Nat} {cause : Cause}
    (hr : s.calls r = .completing f cause ch) : Returns r s := by
  have hs : step s (.complete r) = some (((s.send ch (.error cause)).setCall r
      (.receiving f)).setStage r (.given (.error cause))) := by
    simp only [step, completeStep, hr, h.room (.caller r f ch cause hr)]
  have h' := h.after_step (step_cases hs)
  exact .next hs rfl (h'.returns_of_receiving (f := f) (Function.update_self ..))

/-- The call removes its entry and sends, or finds that another has removed it. -/
theorem Inv.returns_of_unlocked (h : Inv s) {r f : Nat} {cause : Cause}
    (hr : s.calls r = .givingUp f cause) (hmu : s.mu (pendingShardIndex r) = none) :
    Returns r s := by
  have hid : s.requestID f = r := h.requestID_eq (by rw [State.cell, hr]; rfl)
  cases hfind : s.find r with
  | none =>
    have hs : step s (.complete r) = some (s.setCall r (.receiving f)) := by
      simp only [step, completeStep, hr, hid, hmu, hfind]
    have h' := h.after_step (step_cases hs)
    exact .next hs rfl (h'.returns_of_receiving (f := f) (Function.update_self ..))
  | some ch =>
    have hs : step s (.complete r) = some (((s.delete r).setCall r
        (.completing f cause ch)).setStage r (.carried .caller (.error cause))) := by
      simp only [step, completeStep, hr, hid, hmu, hfind]
    have h' := h.after_step (step_cases hs)
    exact .next hs rfl (h'.returns_of_completing (Function.update_self ..))

/-- The number of steps of `enqueue` up to the unlock. -/
def Call.inLock : Call ρ → Nat
  | .checking _ => 3
  | .registered _ => 2
  | .leaving _ _ => 1
  | _ => 0

theorem Call.inLock_pos {c : Call ρ} (h : c.locked = true) : 0 < c.inLock := by
  cases c with
  | checking | registered | leaving => simp [Call.inLock]
  | idle | entering | refused | awaiting | givingUp | completing | receiving | received | returned
  | ended => cases h

/-- The request that holds the lock of its shard goes on, and gives it back at last. -/
theorem Inv.enqueue_next (h : Inv s) {r j : Nat} (hmu : s.mu j = some r) :
    ∃ s', step s (.enqueue r true) = some s' ∧ (∀ r' ≠ r, s'.calls r' = s.calls r') ∧
      (s'.mu j = none ∨ s'.mu j = some r ∧ (s'.calls r).inLock < (s.calls r).inLock) := by
  obtain ⟨rfl, hlocked⟩ := (h.guarded.lock j r).mp hmu
  have hother : ∀ (c : Call ρ), ∀ r' ≠ r, Function.update s.calls r c r' = s.calls r' :=
    fun c r' hne => Function.update_of_ne hne ..
  have hself : ∀ c : Call ρ, c.inLock < (s.calls r).inLock →
      (Function.update s.calls r c r).inLock < (s.calls r).inLock := fun c hc => by
    rwa [Function.update_self]
  cases hr : s.calls r with
  | checking f =>
    rw [hr] at hself
    by_cases hc : s.canceled = true
    · refine ⟨s.setCall r (.leaving f (some .clientClosed)), ?_, hother _,
        Or.inr ⟨hmu, hself _ (by simp [Call.inLock])⟩⟩
      simp only [step, enqueueStep, hr, hc, if_true]
    · cases f with
      | none =>
        refine ⟨s.setCall r (.registered none), ?_, hother _,
          Or.inr ⟨hmu, hself _ (by simp [Call.inLock])⟩⟩
        simp only [step, enqueueStep, hr, hc, if_false, Bool.false_eq_true]
      | some f =>
        -- the map is nil only when the context has ended
        obtain ⟨m, hp⟩ : ∃ m, s.pending (pendingShardIndex r) = some m :=
          Option.ne_none_iff_exists'.mp fun hp => hc (h.guarded.nilMap _ hp)
        refine ⟨{ (s.setCall r (.registered (some f))).setStage r .registered with
          pending := Function.update s.pending (pendingShardIndex r)
            (some ((r, f) :: m.filter fun e => e.1 ≠ r)) }, ?_, hother _,
          Or.inr ⟨hmu, hself _ (by simp [Call.inLock])⟩⟩
        simp only [step, enqueueStep, hr, hc, hp, if_false, Bool.false_eq_true]
  | registered f =>
    rw [hr] at hself
    refine ⟨s.setCall r (.leaving f none), ?_, hother _,
      Or.inr ⟨hmu, hself _ (by simp [Call.inLock])⟩⟩
    simp only [step, enqueueStep, hr, if_true]
  | leaving f refusal =>
    refine ⟨{ s.setCall r (unlocked f refusal) with
      mu := Function.update s.mu (pendingShardIndex r) none }, ?_, hother _,
      Or.inl (Function.update_self ..)⟩
    simp only [step, enqueueStep, hr]
  | idle | entering | refused | awaiting | givingUp | completing | receiving | received | returned
  | ended =>
    rw [hr] at hlocked
    cases hlocked

/-- The steps that are left before the lock of shard `j` is free. -/
def State.inLock (s : State ρ) (j : Nat) : Nat := (s.mu j).elim 0 fun r => (s.calls r).inLock

/-- The lock of a shard can become free while a call outside it stays where it is. -/
theorem Inv.unlocks (h : Inv s) (j : Nat) {r : Nat} (hr : (s.calls r).locked = false) :
    Trans.Can step (fun a => a.inside = true)
      (fun s' => (Inv s' ∧ s'.calls r = s.calls r) ∧ s'.mu j = none) s := by
  refine Trans.exec_reaches Nat.lt_wfRel.wf (State.inLock · j)
    (I := fun t => Inv t ∧ t.calls r = s.calls r) (fun t ht => ?_) ⟨h, rfl⟩
  obtain ⟨ht, htr⟩ := ht
  cases hmu : t.mu j with
  | none => exact Or.inl rfl
  | some r' =>
    have hlocked : (t.calls r').locked = true := ((ht.guarded.lock j r').mp hmu).2
    have hne : r ≠ r' := by
      rintro rfl
      rw [htr, hr] at hlocked
      cases hlocked
    obtain ⟨t', hs, hcalls, hnext⟩ := ht.enqueue_next hmu
    refine Or.inr ⟨[.enqueue r' true], t', by simp [Act.inside],
      Trans.exec_cons.mpr ⟨t', hs, rfl⟩,
      ⟨ht.after_step (step_cases hs), (hcalls r hne).trans htr⟩, ?_⟩
    show t'.inLock j < t.inLock j
    rcases hnext with hfree | ⟨hheld, hlt⟩
    · simpa [State.inLock, hmu, hfree] using Call.inLock_pos hlocked
    · simpa [State.inLock, hmu, hheld] using hlt

/-- **A call in `await` can return**, without a response from the server. -/
theorem Inv.returns (h : Inv s) {r f : Nat} (hr : (s.calls r).waits = some f) : Returns r s := by
  have hgiveUp : ∀ {t : State ρ} {f cause}, Inv t → t.calls r = .givingUp f cause →
      Returns r t := fun {t f cause} ht htr =>
    (ht.unlocks (pendingShardIndex r) (r := r) (by rw [htr]; rfl)).trans
      fun t' ⟨⟨ht', htr'⟩, hmu⟩ => ht'.returns_of_unlocked (htr'.trans htr) hmu
  cases hc : s.calls r with
  | awaiting f =>
    have hs : step s (.giveUp r true) = some (s.setCall r (.givingUp f .deadlineExceeded)) := by
      simp only [step, hc, if_true]
    exact Trans.Can.next hs rfl (hgiveUp (h.after_step (step_cases hs)) (Function.update_self ..))
  | givingUp f cause => exact hgiveUp h hc
  | completing f cause ch => exact h.returns_of_completing hc
  | receiving f => exact h.returns_of_receiving hc
  | idle | entering | checking | registered | leaving | refused | received | returned | ended =>
    rw [hc] at hr
    cases hr

/-! ## All together -/

theorem ownResult_of_returned {acts : List (Act ρ)}
    (hrun : Trans.exec step State.init acts = some s) {r : Nat} {result : Result ρ}
    (hr : s.calls r = .returned result) : OwnResult acts s r result := by
  have hfits := (inv_of_run hrun).tracked.fits r
  rw [hr] at hfits
  exact ownResult_of_stage hrun (Or.inr hfits)

/-- A pooled future is nowhere else. -/
theorem Inv.pool_clean (h : Inv s) {f : Nat} (hf : f ∈ s.futurePool) :
    s.channel f = none ∧ (∀ st r, ¬ At s st r f) ∧ ∀ r, (s.calls r).future ≠ some f := by
  obtain ⟨hempty, hnobody⟩ := h.books.pool_clean hf
  exact ⟨hempty, fun st r hat => hnobody r ((h.tracked.at_iff _ _ _).mp hat).2.2, hnobody⟩

/-- **Pooled futures never cross.** Whatever the interleaving of submissions, responses, timeouts,
cancellations, full queues and `Close`:

* a call that has returned from `await` got the only result that was sent to its future, its own;
* one that waits has no result so far, and its channel is in the map or with one who will send to it,
  or its own result is in the channel;
* one that waits can return without anything from outside, with its own result;
* a future in the pool has an empty channel, which no entry, no completer and no call has;
* who is about to send can send, and no nil map is written to. -/
theorem futures_never_cross {acts : List (Act ρ)} {s : State ρ}
    (hrun : Trans.exec step State.init acts = some s) :
    (∀ r result, s.calls r = .returned result → OwnResult acts s r result) ∧
    (∀ r f, (s.calls r).waits = some f →
      (s.results r = [] ∧ ((r, f) ∈ s.entries (pendingShardIndex r) ∨
        ∃ carrier result, At s (.carried carrier result) r f)) ∨
      ∃ result, s.channel f = some result ∧ OwnResult acts s r result) ∧
    (∀ r f, (s.calls r).waits = some f →
      ∃ more s' result, (∀ a ∈ more, a.inside = true) ∧ Trans.exec step s more = some s' ∧
        s'.calls r = .returned result ∧ OwnResult (acts ++ more) s' r result) ∧
    (∀ f ∈ s.futurePool, s.channel f = none ∧ (∀ j r, (r, f) ∉ s.entries j) ∧
      (∀ j r body, s.workers j ≠ .sending r body f) ∧
      (∀ r f' cause, s.calls r ≠ .completing f' cause f) ∧ (∀ r, (r, f) ∉ s.todo) ∧
      ∀ r, (s.calls r).future ≠ some f) ∧
    (∀ j r body ch, s.workers j = .sending r body ch → (step s (.work j)).isSome) ∧
    (∀ r f cause ch, s.calls r = .completing f cause ch → (step s (.complete r)).isSome) ∧
    (∀ j todo n e, s.closer = .sending j todo → todo[n]? = some e → (step s (.fail n)).isSome) ∧
    s.panicked = false := by
  have hinv := inv_of_run hrun
  have hworker : ∀ {j r body ch}, s.workers j = .sending r body ch →
      At s (.carried .worker (.response r body)) r ch := fun {j r body ch} hw =>
    .worker r ch body ((hinv.placed.worker j r (by rw [hw]; rfl)).symm ▸ hw)
  refine ⟨fun r result hr => ownResult_of_returned hrun hr, fun r f hr => waiting_cases hrun hr,
    fun r f hr => ?_, fun f hf => ?_, fun j r body ch hw => ?_, fun r f cause ch hr => ?_,
    fun j todo n e hclose hn => ?_, hinv.guarded.safe⟩
  · obtain ⟨more, s', hmore, he, result, hr'⟩ := hinv.returns hr
    exact ⟨more, s', result, hmore, he, hr',
      ownResult_of_returned (Trans.exec_append.mpr ⟨s, hrun, he⟩) hr'⟩
  · obtain ⟨hempty, hnowhere, hnobody⟩ := hinv.pool_clean hf
    refine ⟨hempty, fun j r he => ?_, fun j r body hw => hnowhere _ r (hworker hw),
      fun r f' cause hr => hnowhere _ r (.caller r f' f cause hr),
      fun r he => hnowhere _ r (.closer r f he), hnobody⟩
    have hj := hinv.placed.entries j _ he
    exact hnowhere _ r (.entry r f (hj.symm ▸ he))
  · simp [step, workStep, hw, hinv.room (hworker hw)]
  · simp [step, completeStep, hr, hinv.room (.caller r f ch cause hr)]
  · obtain ⟨r, ch⟩ := e
    have hmem : (r, ch) ∈ s.todo := by
      rw [State.todo, hclose]
      exact List.mem_of_getElem? hn
    simp [step, failStep, hclose, hn, hinv.room (.closer r ch hmem)]

/-- A request times out while its response is on its way. -/
def timeoutActs : List (Act Nat) :=
  [.submit 1 none, .enqueue 1 true, .enqueue 1 true, .enqueue 1 true, .enqueue 1 true,
    .giveUp 1 true, .respond 1 5, .complete 1, .work 1, .complete 1, .receive 1, .release 1]

/-- Another request of the same shard gets its future, while the response is repeated. -/
def reuseActs : List (Act Nat) :=
  timeoutActs ++ [.submit 17 (some 0), .respond 1 5, .enqueue 17 true, .enqueue 17 true,
    .enqueue 17 true, .enqueue 17 true, .work 1, .respond 17 6, .work 1, .work 1, .receive 17,
    .release 17]

theorem futures_never_cross_reuseActs : ∃ s, Trans.exec step State.init reuseActs = some s ∧
    s.made = 1 ∧ s.calls 1 = .returned (.error .deadlineExceeded) ∧
    s.calls 17 = .returned (.response 17 6) ∧
    OwnResult reuseActs s 1 (.error .deadlineExceeded) ∧
    OwnResult reuseActs s 17 (.response 17 6) := by
  refine ⟨_, rfl, rfl, rfl, rfl, ?_, ?_⟩
  · exact (futures_never_cross rfl).1 1 _ rfl
  · exact (futures_never_cross rfl).1 17 _ rfl

end RedLease.Client1of1.Futures
