import RedLease.Client1of1.Futures

/-!
# Results do not cross

A result channel is used by one request after the other, while response workers, callers that give up
and `Close` send to it outside the lock. What keeps them apart is that each of them removes the entry
of the request first: the right to send passes from the map to exactly one of them. The model of the
futures follows the books of `Lib/OneShot.lean`, with the stage of a request tied to the place where
its channel is found.

* **`Tracked.after_step`**: a channel is in the map, in the hand of a completer, or in neither, as the
  stage of its request says.
* **`Inv.after_step`**: every step is a move of the books, or none.
-/

namespace RedLease.Client1of1.Futures

open Client (pendingShardCount pendingShardIndex)
open Lib

variable {ρ : Type} {s s' : State ρ}

/-- The future that the call with a request has. -/
def State.cell (s : State ρ) (r : Nat) : Option Nat := (s.calls r).future

/-- The entries that `Close` has taken and not sent to. -/
def State.todo (s : State ρ) : List (Nat × Nat) :=
  match s.closer with
  | .sending _ todo => todo
  | _ => []

/-- The state as books of pooled cells. -/
def State.books (s : State ρ) : OneShot.Books Nat Completer (Result ρ) where
  cell := s.cell
  label := s.requestID
  content := s.channel
  made := s.made
  pool := s.futurePool
  stage := s.stages
  results := s.results

/-! ## Maps and locks -/

theorem find_some {r ch : Nat} (h : s.find r = some ch) :
    (r, ch) ∈ s.entries (pendingShardIndex r) := by
  obtain ⟨e, he, rfl⟩ := Option.map_eq_some_iff.mp h
  have hkey : e.1 = r := by simpa using List.find?_some he
  subst hkey
  exact List.mem_of_find?_eq_some he

theorem find_none {r ch : Nat} (h : s.find r = none) :
    (r, ch) ∉ s.entries (pendingShardIndex r) := by
  intro hmem
  have hnone := List.find?_eq_none.mp (Option.map_eq_none_iff.mp h) (r, ch) hmem
  simp at hnone

theorem entries_delete (s : State ρ) (r j : Nat) : (s.delete r).entries j =
    if j = pendingShardIndex r then (s.entries j).filter fun e => e.1 ≠ r else s.entries j := by
  unfold State.entries State.delete
  dsimp only
  split_ifs with hj
  · subst hj
    rw [Function.update_self]
    cases s.pending (pendingShardIndex r) <;> rfl
  · rw [Function.update_of_ne hj]

theorem mem_entries_delete {r r' ch : Nat} :
    (r', ch) ∈ (s.delete r).entries (pendingShardIndex r') ↔
      r' ≠ r ∧ (r', ch) ∈ s.entries (pendingShardIndex r') := by
  rw [entries_delete]
  split_ifs with hj
  · simp [and_comm]
  · exact ⟨fun h => ⟨fun heq => hj (by rw [heq]), h⟩, And.right⟩

/-- The request of the response that a worker has in hand. -/
def Worker.request : Worker ρ → Option Nat
  | .completing r _ | .sending r _ _ => some r
  | .waiting | .exited => none

/-- Entries and responses are where their request IDs say, and a map has one entry for a key. -/
structure Placed (s : State ρ) : Prop where
  keys : ∀ j, ((s.entries j).map (·.1)).Nodup
  entries : ∀ j, ∀ e ∈ s.entries j, pendingShardIndex e.1 = j
  worker : ∀ j r, (s.workers j).request = some r → pendingShardIndex r = j
  todo : (s.todo.map (·.1)).Nodup

theorem Placed.setWorker (h : Placed s) {j : Nat} {w : Worker ρ}
    (hw : ∀ r, w.request = some r → pendingShardIndex r = j) : Placed (s.setWorker j w) := by
  refine ⟨h.keys, h.entries, fun j' r hr => ?_, h.todo⟩
  dsimp only [State.setWorker] at hr
  by_cases hj : j' = j
  · subst hj
    rw [Function.update_self] at hr
    exact hw r hr
  · rw [Function.update_of_ne hj] at hr
    exact h.worker j' r hr

theorem Placed.delete (h : Placed s) (r : Nat) : Placed (s.delete r) := by
  refine ⟨fun j => ?_, fun j e he => ?_, h.worker, h.todo⟩
  · rw [entries_delete]
    split_ifs
    · exact (h.keys j).sublist (List.filter_sublist.map _)
    · exact h.keys j
  · rw [entries_delete] at he
    split_ifs at he
    · exact h.entries j e (List.mem_of_mem_filter he)
    · exact h.entries j e he

theorem Placed.after_step (h : Placed s) (hs : Step s s') : Placed s' := by
  cases hs with
  | registered r f m hr hp =>
    have hm : s.entries (pendingShardIndex r) = m := by rw [State.entries, hp]; rfl
    refine ⟨fun j => ?_, fun j e he => ?_, h.worker, h.todo⟩
    · by_cases hj : j = pendingShardIndex r
      · subst hj
        simp only [State.entries, Function.update_self, Option.getD_some, List.map_cons,
          List.nodup_cons]
        refine ⟨by simp, ?_⟩
        rw [← hm]
        exact (h.keys _).sublist (List.filter_sublist.map _)
      · simp only [State.entries, Function.update_of_ne hj]
        exact h.keys j
    · by_cases hj : j = pendingShardIndex r
      · subst hj
        simp only [State.entries, Function.update_self, Option.getD_some, List.mem_cons] at he
        rcases he with rfl | he
        · rfl
        · rw [← hm] at he
          exact h.entries _ e (List.mem_of_mem_filter he)
      · simp only [State.entries, Function.update_of_ne hj] at he
        exact h.entries j e he
  | full r f hr =>
    exact { h.delete r with }
  | removed r f pending cause hr hmu hfind =>
    exact { h.delete (s.requestID f) with }
  | responded r body hw =>
    refine h.setWorker fun r' hr' => ?_
    cases hr'
    rfl
  | unknown j r body hw => exact h.setWorker (by nofun)
  | completed j r pending body hw hmu hfind =>
    have hj : pendingShardIndex r = j := h.worker j r (by rw [hw]; rfl)
    have hsending : ∀ r', (Worker.sending r body pending).request = some r' →
        pendingShardIndex r' = j := by
      rintro r' ⟨⟩
      exact hj
    exact { (h.delete r).setWorker hsending with }
  | answered j r pending body hw hroom =>
    exact { h.setWorker (j := j) (w := .waiting) (by nofun) with }
  | retired j hw => exact h.setWorker (by nofun)
  | closed hclose => exact ⟨h.keys, h.entries, h.worker, List.nodup_nil⟩
  | swept j hclose hmu =>
    refine ⟨fun j' => ?_, fun j' e he => ?_, h.worker, h.keys j⟩
    · by_cases hj : j' = j
      · simp [State.entries, hj]
      · simp only [State.entries, Function.update_of_ne hj]
        exact h.keys j'
    · by_cases hj : j' = j
      · simp [State.entries, hj] at he
      · simp only [State.entries, Function.update_of_ne hj] at he
        exact h.entries j' e he
  | next j hclose => exact ⟨h.keys, h.entries, h.worker, List.nodup_nil⟩
  | failed j n r pending todo hclose hn hroom =>
    have htodo : s.todo = todo := by rw [State.todo, hclose]
    refine ⟨h.keys, h.entries, h.worker, ?_⟩
    exact (htodo ▸ h.todo).sublist ((List.eraseIdx_sublist _ _).map _)
  | _ => exact ⟨h.keys, h.entries, h.worker, h.todo⟩

/-- The locks are held by those that are inside, and maps are nil only after the context has ended. -/
structure Guarded (s : State ρ) : Prop where
  safe : s.panicked = false
  closing : s.closer ≠ .idle → s.canceled = true
  nilMap : ∀ j, s.pending j = none → s.canceled = true
  lock : Mutex.Sharded pendingShardIndex s.mu Call.locked s.calls

/-- A request moves that neither takes nor gives back its lock. -/
theorem Guarded.setCall (h : Guarded s) {r : Nat} {c : Call ρ}
    (hc : c.locked = (s.calls r).locked) : Guarded (s.setCall r c) :=
  ⟨h.safe, h.closing, h.nilMap, h.lock.move hc⟩

theorem Guarded.delete (h : Guarded s) (r : Nat) : Guarded (s.delete r) := by
  refine ⟨h.safe, h.closing, fun j hj => ?_, h.lock⟩
  dsimp only [State.delete] at hj
  by_cases hjr : j = pendingShardIndex r
  · subst hjr
    rw [Function.update_self] at hj
    exact h.nilMap _ (Option.map_eq_none_iff.mp hj)
  · rw [Function.update_of_ne hjr] at hj
    exact h.nilMap j hj

/-- A request takes the lock of its shard, which was free. -/
theorem Guarded.enter (h : Guarded s) {r : Nat} {c : Call ρ} (hc : c.locked = true)
    (hmu : s.mu (pendingShardIndex r) = none) :
    Guarded { s.setCall r c with mu := Function.update s.mu (pendingShardIndex r) (some r) } :=
  ⟨h.safe, h.closing, h.nilMap, h.lock.lock hmu hc⟩

/-- A request gives the lock of its shard back. -/
theorem Guarded.leave (h : Guarded s) {r : Nat} {c : Call ρ} (hr : (s.calls r).locked = true)
    (hc : c.locked = false) :
    Guarded { s.setCall r c with mu := Function.update s.mu (pendingShardIndex r) none } :=
  ⟨h.safe, h.closing, h.nilMap, h.lock.unlock hr hc⟩

theorem unlocked_locked (f : Option Nat) (refusal : Option Refusal) :
    (unlocked f refusal : Call ρ).locked = false := by
  cases f with
  | none => rfl
  | some f => cases refusal <;> rfl

theorem Guarded.after_step (h : Guarded s) (hs : Step s s') : Guarded s' := by
  cases hs with
  | reused r n f hr hf =>
    exact { h.setCall (r := r) (c := .entering (some f)) (by rw [hr]; rfl) with }
  | made r hr =>
    exact { h.setCall (r := r) (c := .entering (some s.made)) (by rw [hr]; rfl) with }
  | noResponse r hr => exact h.setCall (by rw [hr]; rfl)
  | locked r f hr hmu => exact h.enter rfl hmu
  | turnedAway r f hr | passed r hr => exact h.setCall (by rw [hr]; rfl)
  | panicked r f hr hc hp =>
    rw [h.nilMap _ hp] at hc
    cases hc
  | registered r f m hr hp =>
    have hcall := h.setCall (r := r) (c := .registered (some f)) (by rw [hr]; rfl)
    refine { hcall with nilMap := fun j hj => ?_ }
    by_cases hjr : j = pendingShardIndex r
    · simp [hjr] at hj
    · simp only [Function.update_of_ne hjr] at hj
      exact h.nilMap j hj
  | queued r f hr => exact h.setCall (by rw [hr]; rfl)
  | full r f hr =>
    exact { (h.delete r).setCall (r := r) (c := .leaving f (some .sendQueueFull))
      (by show true = (s.calls r).locked; rw [hr]; rfl) with }
  | left r f refusal hr => exact h.leave (by rw [hr]; rfl) (unlocked_locked f refusal)
  | refused r f refusal hr =>
    exact { h.setCall (r := r) (c := .ended (some refusal)) (by rw [hr]; rfl) with }
  | released r f result hr =>
    exact { h.setCall (r := r) (c := .returned result) (by rw [hr]; rfl) with }
  | received r f result hr hf =>
    exact { h.setCall (r := r) (c := .received f result)
      (by rcases hr with hr | hr <;> (rw [hr]; rfl)) with }
  | gaveUp r f cause hr | late r f cause hr hfind => exact h.setCall (by rw [hr]; rfl)
  | removed r f pending cause hr hmu hfind =>
    exact { (h.delete (s.requestID f)).setCall (r := r) (c := .completing f cause pending)
      (by show false = (s.calls r).locked; rw [hr]; rfl) with }
  | delivered r f pending cause hr hroom =>
    exact { h.setCall (r := r) (c := .receiving f) (by rw [hr]; rfl) with }
  | completed j r pending body hw hmu hfind => exact { h.delete r with }
  | closed hclose => exact { h with closing := fun _ => rfl, nilMap := fun _ _ => rfl }
  | swept j hclose hmu =>
    have hcanceled : s.canceled = true := h.closing (by rw [hclose]; nofun)
    exact { h with closing := fun _ => hcanceled, nilMap := fun _ _ => hcanceled }
  | next j hclose => exact { h with closing := fun _ => h.closing (by rw [hclose]; nofun) }
  | failed j n r pending todo hclose hn hroom =>
    exact { h with closing := fun _ => h.closing (by rw [hclose]; nofun) }
  | _ => exact { h with }

/-! ## Where the channel of a request is -/

/-- Stages in which the channel of the request is in the map or with a completer. -/
def Moving (st : OneShot.Stage Completer (Result ρ)) : Prop :=
  st = .registered ∨ ∃ carrier result, st = .carried carrier result

/-- The channel `ch` of request `r` is found where the stage says. -/
inductive At (s : State ρ) : OneShot.Stage Completer (Result ρ) → Nat → Nat → Prop
  | entry (r ch : Nat) (h : (r, ch) ∈ s.entries (pendingShardIndex r)) : At s .registered r ch
  | worker (r ch : Nat) (body : ρ) (h : s.workers (pendingShardIndex r) = .sending r body ch) :
      At s (.carried .worker (.response r body)) r ch
  | caller (r f ch : Nat) (cause : Cause) (h : s.calls r = .completing f cause ch) :
      At s (.carried .caller (.error cause)) r ch
  | closer (r ch : Nat) (h : (r, ch) ∈ s.todo) :
      At s (.carried .closer (.error .clientClosed)) r ch

/-- The call waits for a result that is in the map, on its way or in the channel. -/
def Outstanding (st : OneShot.Stage Completer (Result ρ)) : Prop :=
  st ≠ .unregistered ∧ (∀ result, st ≠ .carried .caller result) ∧ ∀ result, st ≠ .taken result

/-- How far the call is fits the stage. -/
def Fits : Call ρ → OneShot.Stage Completer (Result ρ) → Prop
  | .registered (some _), st | .leaving (some _) none, st => st = .registered
  | .awaiting _, st | .givingUp _ _, st => Outstanding st
  | .completing f cause pending, st => st = .carried .caller (.error cause) ∧ pending = f
  | .receiving _, st => Outstanding st ∧ st ≠ .registered
  | .received _ result, st | .returned result, st => st = .taken result
  | _, st => st = .unregistered

/-- A response goes to the request whose ID it has. -/
def Named (r : Nat) : OneShot.Stage Completer (Result ρ) → Prop
  | .carried _ (.response r' _) | .given (.response r' _) | .taken (.response r' _) => r' = r
  | _ => True

/-- **Each channel is in one place**, the one that the stage of its request names. -/
structure Tracked (s : State ρ) : Prop where
  at_iff : ∀ st r ch, At s st r ch ↔ Moving st ∧ s.stages r = st ∧ s.cell r = some ch
  fits : ∀ r, Fits (s.calls r) (s.stages r)
  named : ∀ r, Named r (s.stages r)

/-- The places where the channel of `r` can be are the same. -/
structure SameAt (s s' : State ρ) (r : Nat) : Prop where
  entry : ∀ ch, (r, ch) ∈ s'.entries (pendingShardIndex r) ↔
    (r, ch) ∈ s.entries (pendingShardIndex r)
  worker : ∀ body ch, s'.workers (pendingShardIndex r) = .sending r body ch ↔
    s.workers (pendingShardIndex r) = .sending r body ch
  call : ∀ f cause ch, s'.calls r = .completing f cause ch ↔ s.calls r = .completing f cause ch
  todo : ∀ ch, (r, ch) ∈ s'.todo ↔ (r, ch) ∈ s.todo

theorem SameAt.symm {r : Nat} (h : SameAt s s' r) : SameAt s' s r :=
  ⟨fun ch => (h.entry ch).symm, fun body ch => (h.worker body ch).symm,
    fun f cause ch => (h.call f cause ch).symm, fun ch => (h.todo ch).symm⟩

theorem SameAt.mp {r ch : Nat} {st : OneShot.Stage Completer (Result ρ)} (h : SameAt s s' r)
    (hat : At s st r ch) : At s' st r ch := by
  cases hat with
  | entry _ _ hmem => exact .entry r ch ((h.entry ch).mpr hmem)
  | worker _ _ body hw => exact .worker r ch body ((h.worker body ch).mpr hw)
  | caller _ f _ cause hr => exact .caller r f ch cause ((h.call f cause ch).mpr hr)
  | closer _ _ hmem => exact .closer r ch ((h.todo ch).mpr hmem)

theorem SameAt.at_iff {r ch : Nat} {st : OneShot.Stage Completer (Result ρ)}
    (h : SameAt s s' r) : At s' st r ch ↔ At s st r ch := ⟨h.symm.mp, h.mp⟩

/-- A step that is about one request. -/
theorem Tracked.focus (h : Tracked s) (r : Nat) (hsame : ∀ r', r' ≠ r → SameAt s s' r')
    (hcalls : ∀ r', r' ≠ r → s'.calls r' = s.calls r')
    (hstages : ∀ r', r' ≠ r → s'.stages r' = s.stages r')
    (hat : ∀ st ch, At s' st r ch ↔ Moving st ∧ s'.stages r = st ∧ s'.cell r = some ch)
    (hfits : Fits (s'.calls r) (s'.stages r)) (hnamed : Named r (s'.stages r)) : Tracked s' := by
  refine ⟨fun st r' ch => ?_, fun r' => ?_, fun r' => ?_⟩
  · by_cases hr : r' = r
    · subst hr
      exact hat st ch
    · have hcell : s'.cell r' = s.cell r' := congrArg Call.future (hcalls r' hr)
      rw [hstages r' hr, hcell, ← h.at_iff]
      exact (hsame r' hr).at_iff
  · by_cases hr : r' = r
    · subst hr
      exact hfits
    · rw [hstages r' hr, hcalls r' hr]
      exact h.fits r'
  · by_cases hr : r' = r
    · subst hr
      exact hnamed
    · rw [hstages r' hr]
      exact h.named r'

/-- A step that is about no call. -/
theorem Tracked.unmoved (h : Tracked s) (hsame : ∀ r, SameAt s s' r) (hcalls : s'.calls = s.calls)
    (hstages : s'.stages = s.stages) : Tracked s' := by
  refine ⟨fun st r ch => ?_, fun r => ?_, fun r => ?_⟩
  · rw [(hsame r).at_iff, h.at_iff, hstages, State.cell, State.cell, hcalls]
  · rw [hcalls, hstages]
    exact h.fits r
  · rw [hstages]
    exact h.named r

/-- Nothing moves but calls and locks. -/
structure Still (s s' : State ρ) : Prop where
  pending : s'.pending = s.pending
  workers : s'.workers = s.workers
  closer : s'.closer = s.closer
  stages : s'.stages = s.stages

/-- A step in which a call goes on and no channel or result moves: it keeps its future, or its channel
is nowhere. -/
theorem Tracked.go_on (h : Tracked s) {r : Nat} {c c' : Call ρ} (hr : s.calls r = c)
    (hcalls : s'.calls = Function.update s.calls r c') (hstill : Still s s')
    (hold : ∀ f cause ch, c ≠ .completing f cause ch)
    (hnew : ∀ f cause ch, c' ≠ .completing f cause ch)
    (hcell : c'.future = c.future ∨ ¬ Moving (s.stages r)) (hfits : Fits c' (s.stages r)) :
    Tracked s' := by
  have hself : s'.calls r = c' := by rw [hcalls, Function.update_self]
  have hother : ∀ r', r' ≠ r → s'.calls r' = s.calls r' := fun r' hr' => by
    rw [hcalls, Function.update_of_ne hr']
  have hsame : ∀ r', SameAt s s' r' := by
    refine fun r' => ⟨fun ch => by rw [State.entries, hstill.pending]; rfl,
      fun body ch => by rw [hstill.workers], fun f cause ch => ?_, fun ch => by
        rw [State.todo, hstill.closer]; rfl⟩
    by_cases hrr : r' = r
    · subst hrr
      rw [hself, hr]
      exact iff_of_false (hnew f cause ch) (hold f cause ch)
    · rw [hother r' hrr]
  refine h.focus r (fun r' _ => hsame r') hother (fun r' _ => by rw [hstill.stages])
    (fun st ch => ?_) (by rw [hself, hstill.stages]; exact hfits)
    (by rw [hstill.stages]; exact h.named r)
  rw [(hsame r).at_iff, h.at_iff, hstill.stages, State.cell, State.cell, hself, hr]
  rcases hcell with heq | hnowhere
  · rw [heq]
  · refine iff_of_false ?_ ?_ <;> rintro ⟨hmoving, rfl, -⟩ <;> exact hnowhere hmoving

/-- Two places for one request are one place. -/
theorem Tracked.unique (h : Tracked s) {r ch : Nat} {st : OneShot.Stage Completer (Result ρ)}
    (hat : At s st r ch) : s.stages r = st := ((h.at_iff st r ch).mp hat).2.1

theorem Fits.carried {c : Call ρ} {st : OneShot.Stage Completer (Result ρ)}
    (h : Fits c .registered) (hc : c.locked = false) (hst : Outstanding st) : Fits c st := by
  cases c with
  | awaiting => exact hst
  | givingUp => exact hst
  | registered f => cases hc
  | leaving f refusal => cases hc
  | receiving => exact absurd rfl h.2
  | completing => cases h.1
  | idle | entering | checking | refused | received | returned | ended => cases h

theorem Fits.given {c : Call ρ} {carrier : Completer} {result : Result ρ}
    (h : Fits c (.carried carrier result)) (hc : carrier ≠ .caller) : Fits c (.given result) := by
  have hout : Outstanding (OneShot.Stage.given (κ := Completer) result) := ⟨nofun, nofun, nofun⟩
  cases c with
  | awaiting => exact hout
  | givingUp => exact hout
  | receiving => exact ⟨hout, nofun⟩
  | completing =>
    cases h.1
    exact absurd rfl hc
  | registered f => cases f <;> cases h
  | leaving f refusal => cases f <;> cases refusal <;> cases h
  | idle | entering | checking | refused | received | returned | ended => cases h

/-! ## The steps that move a channel -/

theorem Tracked.registered (h : Tracked s) {r f : Nat} {m : List (Nat × Nat)}
    (hr : s.calls r = .checking (some f)) (hp : s.pending (pendingShardIndex r) = some m) :
    Tracked { (s.setCall r (.registered (some f))).setStage r .registered with
      pending := Function.update s.pending (pendingShardIndex r)
        (some ((r, f) :: m.filter fun e => e.1 ≠ r)) } := by
  have hstage : s.stages r = .unregistered := by simpa [hr, Fits] using h.fits r
  have hentries : s.entries (pendingShardIndex r) = m := by rw [State.entries, hp]; rfl
  refine h.focus r (fun r' hr' => ⟨fun ch => ?_, fun _ _ => Iff.rfl, fun _ _ _ => ?_, fun _ => Iff.rfl⟩)
    (fun r' hr' => Function.update_of_ne hr' ..) (fun r' hr' => Function.update_of_ne hr' ..)
    (fun st ch => ?_) ?_ ?_
  · by_cases hj : pendingShardIndex r' = pendingShardIndex r
    · rw [hj, hentries]
      simp [State.entries, hr']
    · simp [State.entries, Function.update_of_ne hj]
  · simp [State.setCall, State.setStage, Function.update_of_ne hr']
  · have hcell : (Function.update s.calls r (.registered (some f)) r).future = some f := by
      rw [Function.update_self]
      rfl
    constructor
    · intro hat
      cases hat with
      | entry _ _ hmem =>
        refine ⟨Or.inl rfl, Function.update_self .., ?_⟩
        have hch : ch = f := by simpa [State.entries] using hmem
        rw [hch]
        exact hcell
      | worker _ _ body hw => cases hstage.symm.trans (h.unique (.worker r ch body hw))
      | caller _ f' _ cause hc => cases (Function.update_self ..).symm.trans hc
      | closer _ _ hmem => cases hstage.symm.trans (h.unique (.closer r ch hmem))
    · rintro ⟨-, hst, hch⟩
      obtain rfl := (Function.update_self ..).symm.trans hst
      obtain rfl := Option.some.inj (hcell.symm.trans hch)
      exact .entry r f (by simp [State.entries])
  · simp [State.setCall, State.setStage, Fits]
  · simp [State.setCall, State.setStage, Named]

theorem Tracked.full (h : Tracked s) {r : Nat} {f : Option Nat}
    (hr : s.calls r = .registered f) : Tracked
      (((s.delete r).setCall r (.leaving f (some .sendQueueFull))).setStage r .unregistered) := by
  have hstage : ∀ carrier result, s.stages r ≠ .carried carrier result := by
    have hfits := h.fits r
    rw [hr] at hfits
    cases f <;> (rw [hfits]; nofun)
  refine h.focus r (fun r' hr' => ⟨fun ch => ?_, fun _ _ => Iff.rfl, fun _ _ _ => ?_,
    fun _ => Iff.rfl⟩) (fun r' hr' => Function.update_of_ne hr' ..)
    (fun r' hr' => Function.update_of_ne hr' ..) (fun st ch => ?_) ?_ ?_
  · exact mem_entries_delete.trans (and_iff_right hr')
  · simp [State.setCall, State.setStage, State.delete, Function.update_of_ne hr']
  · constructor
    · intro hat
      cases hat with
      | entry _ _ hmem => exact absurd rfl (mem_entries_delete.mp hmem).1
      | worker _ _ body hw => exact absurd (h.unique (.worker r ch body hw)) (hstage _ _)
      | caller _ f' _ cause hc => cases (Function.update_self ..).symm.trans hc
      | closer _ _ hmem => exact absurd (h.unique (.closer r ch hmem)) (hstage _ _)
    · rintro ⟨hmoving, hst, -⟩
      obtain rfl := (Function.update_self ..).symm.trans hst
      rcases hmoving with hmoving | ⟨_, _, hmoving⟩ <;> cases hmoving
  · simp [State.setCall, State.setStage, Fits]
  · simp [State.setCall, State.setStage, Named]

/-- The caller removes its own entry. -/
theorem Tracked.removed (h : Tracked s) {r f pending : Nat} {cause : Cause}
    (hr : s.calls r = .givingUp f cause) (hfind : s.find r = some pending) : Tracked
      (((s.delete r).setCall r (.completing f cause pending)).setStage r
        (.carried .caller (.error cause))) := by
  obtain ⟨-, hstage, hcell⟩ := (h.at_iff _ _ _).mp (.entry r pending (find_some hfind))
  have hf : pending = f := by
    rw [State.cell, hr] at hcell
    exact (Option.some.inj hcell).symm
  refine h.focus r (fun r' hr' => ⟨fun ch => ?_, fun _ _ => Iff.rfl, fun _ _ _ => ?_,
    fun _ => Iff.rfl⟩) (fun r' hr' => Function.update_of_ne hr' ..)
    (fun r' hr' => Function.update_of_ne hr' ..) (fun st ch => ?_) ?_ ?_
  · exact mem_entries_delete.trans (and_iff_right hr')
  · simp [State.setCall, State.setStage, State.delete, Function.update_of_ne hr']
  · constructor
    · intro hat
      cases hat with
      | entry _ _ hmem => exact absurd rfl (mem_entries_delete.mp hmem).1
      | worker _ _ body hw => cases hstage.symm.trans (h.unique (.worker r ch body hw))
      | caller _ f' _ cause' hc =>
        cases (Function.update_self ..).symm.trans hc
        refine ⟨Or.inr ⟨_, _, rfl⟩, Function.update_self .., ?_⟩
        simp [State.cell, State.setCall, State.setStage, Call.future, hf]
      | closer _ _ hmem => cases hstage.symm.trans (h.unique (.closer r ch hmem))
    · rintro ⟨-, hst, hch⟩
      obtain rfl := (Function.update_self ..).symm.trans hst
      refine .caller r f ch cause ?_
      have hch' : some f = some ch := by
        simpa [State.cell, State.setCall, State.setStage, Call.future] using hch
      obtain rfl := Option.some.inj hch'
      simp [State.setCall, State.setStage, hf]
  · simp [State.setCall, State.setStage, Fits, hf]
  · simp [State.setCall, State.setStage, Named]

/-- A worker removes the entry of a response. -/
theorem Tracked.completed (h : Tracked s) {j r pending : Nat} {body : ρ}
    (hw : s.workers j = .completing r body) (hj : pendingShardIndex r = j)
    (hfree : (s.calls r).locked = false) (hfind : s.find r = some pending) : Tracked
      (((s.delete r).setWorker j (.sending r body pending)).setStage r
        (.carried .worker (.response r body))) := by
  subst hj
  obtain ⟨-, hstage, hcell⟩ := (h.at_iff _ _ _).mp (.entry r pending (find_some hfind))
  refine h.focus r (fun r' hr' => ⟨fun ch => ?_, fun body' ch => ?_, fun _ _ _ => Iff.rfl,
    fun _ => Iff.rfl⟩) (fun _ _ => rfl) (fun r' hr' => Function.update_of_ne hr' ..)
    (fun st ch => ?_) ?_ ?_
  · exact mem_entries_delete.trans (and_iff_right hr')
  · by_cases hj : pendingShardIndex r' = pendingShardIndex r
    · rw [hj, hw]
      simp [State.setWorker, State.setStage, Ne.symm hr']
    · simp [State.setWorker, State.setStage, State.delete, Function.update_of_ne hj]
  · constructor
    · intro hat
      cases hat with
      | entry _ _ hmem => exact absurd rfl (mem_entries_delete.mp hmem).1
      | worker _ _ body' hw' =>
        cases (Function.update_self ..).symm.trans hw'
        exact ⟨Or.inr ⟨_, _, rfl⟩, Function.update_self .., hcell⟩
      | caller _ f' _ cause' hc => cases hstage.symm.trans (h.unique (.caller r f' ch cause' hc))
      | closer _ _ hmem => cases hstage.symm.trans (h.unique (.closer r ch hmem))
    · rintro ⟨-, hst, hch⟩
      obtain rfl := (Function.update_self ..).symm.trans hst
      obtain rfl := Option.some.inj (hcell.symm.trans hch)
      exact .worker r pending body (Function.update_self ..)
  · have hfits := h.fits r
    rw [hstage] at hfits
    have hnew : Fits (s.calls r) (.carried .worker (.response r body)) :=
      hfits.carried hfree ⟨nofun, nofun, nofun⟩
    simpa [State.setStage, State.setWorker, State.delete] using hnew
  · simp [State.setStage, Named]

/-- `Close` takes the map of a shard. -/
theorem Tracked.swept (h : Tracked s) (hplaced : Placed s) {j : Nat}
    (hclose : s.closer = .shard j)
    (hfree : ∀ r, pendingShardIndex r = j → (s.calls r).locked = false) :
    Tracked { s with
      pending := Function.update s.pending j none
      closer := .sending j (s.entries j)
      stages := fun r =>
        if r ∈ (s.entries j).map (·.1) then .carried .closer (.error .clientClosed)
        else s.stages r } := by
  have htodo : s.todo = [] := by rw [State.todo, hclose]
  -- a request with an entry in the map
  have htaken : ∀ r, r ∈ (s.entries j).map (·.1) → pendingShardIndex r = j ∧
      s.stages r = .registered ∧ ∃ ch, (r, ch) ∈ s.entries j := by
    intro r hmem
    obtain ⟨⟨_, ch⟩, he, rfl⟩ := List.mem_map.mp hmem
    have hj := hplaced.entries j _ he
    exact ⟨hj, h.unique (.entry _ ch (hj.symm ▸ he)), ch, he⟩
  -- and one without
  have hsame : ∀ r, r ∉ (s.entries j).map (·.1) → SameAt s { s with
      pending := Function.update s.pending j none
      closer := .sending j (s.entries j)
      stages := fun r =>
        if r ∈ (s.entries j).map (·.1) then .carried .closer (.error .clientClosed)
        else s.stages r } r := by
    intro r hmem
    have hnone : ∀ ch, (r, ch) ∉ s.entries j := fun ch he => hmem (List.mem_map.mpr ⟨_, he, rfl⟩)
    refine ⟨fun ch => ?_, fun _ _ => Iff.rfl, fun _ _ _ => Iff.rfl, fun ch => ?_⟩
    · by_cases hj : pendingShardIndex r = j
      · simp [State.entries, hj]
        exact hj ▸ hnone ch
      · simp [State.entries, Function.update_of_ne hj]
    · rw [htodo]
      exact iff_of_false (hnone ch) List.not_mem_nil
  refine ⟨fun st r ch => ?_, fun r => ?_, fun r => ?_⟩
  · by_cases hmem : r ∈ (s.entries j).map (·.1)
    · obtain ⟨hj, hstage, ch₀, he⟩ := htaken r hmem
      have hcell : s.cell r = some ch₀ := ((h.at_iff _ _ _).mp (.entry r ch₀ (hj.symm ▸ he))).2.2
      dsimp only
      rw [if_pos hmem]
      constructor
      · intro hat
        cases hat with
        | entry _ _ he' => simp [State.entries, hj] at he'
        | worker _ _ body hw => cases hstage.symm.trans (h.unique (.worker r ch body hw))
        | caller _ f _ cause hc => cases hstage.symm.trans (h.unique (.caller r f ch cause hc))
        | closer _ _ he' =>
          have hch := ((h.at_iff _ _ _).mp (.entry r ch (hj.symm ▸ he'))).2.2
          exact ⟨Or.inr ⟨_, _, rfl⟩, rfl, hch⟩
      · rintro ⟨-, rfl, hch⟩
        obtain rfl := Option.some.inj (hcell.symm.trans hch)
        exact .closer r ch₀ he
    · dsimp only
      rw [(hsame r hmem).at_iff, h.at_iff, if_neg hmem]
      rfl
  · dsimp only
    split_ifs with hmem
    · obtain ⟨hj, hstage, -⟩ := htaken r hmem
      have hfits := h.fits r
      rw [hstage] at hfits
      exact hfits.carried (hfree r hj) ⟨nofun, nofun, nofun⟩
    · exact h.fits r
  · dsimp only
    split_ifs with hmem
    · trivial
    · exact h.named r

/-- A completer sends the result of request `r`. -/
theorem Tracked.sent (h : Tracked s) {r pending : Nat} {carrier : Completer} {result : Result ρ}
    (hat : At s (.carried carrier result) r pending)
    (hpending : s'.pending = s.pending)
    (hworkers : ∀ r' body ch, r' ≠ r →
      (s'.workers (pendingShardIndex r') = .sending r' body ch ↔
        s.workers (pendingShardIndex r') = .sending r' body ch))
    (hcalls : ∀ r', r' ≠ r → s'.calls r' = s.calls r')
    (htodo : ∀ r' ch, r' ≠ r → ((r', ch) ∈ s'.todo ↔ (r', ch) ∈ s.todo))
    (hstages : s'.stages = Function.update s.stages r (.given result))
    (hgone : ∀ st ch, ¬ At s' st r ch) (hfits : Fits (s'.calls r) (.given result)) :
    Tracked s' := by
  have hself : s'.stages r = .given result := by rw [hstages, Function.update_self]
  refine h.focus r (fun r' hr' => ⟨fun ch => by rw [State.entries, hpending]; rfl,
    fun body ch => hworkers r' body ch hr', fun f cause ch => by rw [hcalls r' hr'],
    fun ch => htodo r' ch hr'⟩) hcalls
    (fun r' hr' => by rw [hstages, Function.update_of_ne hr']) (fun st ch => ?_)
    (by rw [hself]; exact hfits) ?_
  · refine iff_of_false (hgone st ch) ?_
    rintro ⟨hmoving, hst, -⟩
    obtain rfl := hself.symm.trans hst
    rcases hmoving with hmoving | ⟨_, _, hmoving⟩ <;> cases hmoving
  · have hnamed := h.named r
    rw [h.unique hat] at hnamed
    rw [hself]
    cases result with
    | response r' body => exact hnamed
    | error cause => trivial

theorem Tracked.received (h : Tracked s) {r f : Nat} {result : Result ρ}
    (hstage : s.stages r = .given result) :
    Tracked { (s.setCall r (.received f result)).setStage r (.taken result) with
      channel := Function.update s.channel f none } := by
  have hsame : ∀ r', r' ≠ r → SameAt s { (s.setCall r (.received f result)).setStage r
      (.taken result) with channel := Function.update s.channel f none } r' := fun r' hr' =>
    ⟨fun _ => Iff.rfl, fun _ _ => Iff.rfl, fun f' cause ch => by
      simp [State.setCall, State.setStage, Function.update_of_ne hr'], fun _ => Iff.rfl⟩
  refine h.focus r hsame (fun r' hr' => Function.update_of_ne hr' ..)
    (fun r' hr' => Function.update_of_ne hr' ..) (fun st ch => ?_) ?_ ?_
  · constructor
    · intro hat
      cases hat with
      | entry _ _ hmem => cases hstage.symm.trans (h.unique (.entry r ch hmem))
      | worker _ _ body hw => cases hstage.symm.trans (h.unique (.worker r ch body hw))
      | caller _ f' _ cause hc => cases (Function.update_self ..).symm.trans hc
      | closer _ _ hmem => cases hstage.symm.trans (h.unique (.closer r ch hmem))
    · rintro ⟨hmoving, hst, -⟩
      obtain rfl := (Function.update_self ..).symm.trans hst
      rcases hmoving with hmoving | ⟨_, _, hmoving⟩ <;> cases hmoving
  · simp [State.setCall, State.setStage, Fits]
  · have hnamed := h.named r
    rw [hstage] at hnamed
    simp only [State.setStage, Function.update_self]
    cases result with
    | response r' body => exact hnamed
    | error cause => trivial

theorem Tracked.delivered (h : Tracked s) {r f pending : Nat} {cause : Cause}
    (hr : s.calls r = .completing f cause pending) : Tracked
      (((s.send pending (.error cause)).setCall r (.receiving f)).setStage r
        (.given (.error cause))) := by
  have hat : At s (.carried .caller (.error cause)) r pending := .caller r f pending cause hr
  have hstage := h.unique hat
  refine h.sent hat rfl (fun _ _ _ _ => Iff.rfl) (fun r' hr' => Function.update_of_ne hr' ..)
    (fun _ _ _ => Iff.rfl) rfl (fun st ch hat' => ?_) ?_
  · cases hat' with
    | entry _ _ hmem => cases hstage.symm.trans (h.unique (.entry r ch hmem))
    | worker _ _ body hw => cases hstage.symm.trans (h.unique (.worker r ch body hw))
    | caller _ f' _ cause' hc => cases (Function.update_self ..).symm.trans hc
    | closer _ _ hmem => cases hstage.symm.trans (h.unique (.closer r ch hmem))
  · simp [State.setCall, State.setStage, Fits, Outstanding]

theorem Tracked.answered (h : Tracked s) {j r pending : Nat} {body : ρ}
    (hw : s.workers j = .sending r body pending) (hj : pendingShardIndex r = j) : Tracked
      (((s.send pending (.response r body)).setWorker j .waiting).setStage r
        (.given (.response r body))) := by
  subst hj
  have hat : At s (.carried .worker (.response r body)) r pending := .worker r pending body hw
  have hstage := h.unique hat
  refine h.sent hat rfl (fun r' body' ch hr' => ?_) (fun _ _ => rfl) (fun _ _ _ => Iff.rfl) rfl
    (fun st ch hat' => ?_) ?_
  · by_cases hj : pendingShardIndex r' = pendingShardIndex r
    · rw [hj, hw]
      simp [State.setWorker, State.setStage, Ne.symm hr']
    · simp [State.setWorker, State.setStage, State.send, Function.update_of_ne hj]
  · cases hat' with
    | entry _ _ hmem => cases hstage.symm.trans (h.unique (.entry r ch hmem))
    | worker _ _ body' hw' => cases (Function.update_self ..).symm.trans hw'
    | caller _ f' _ cause hc => cases hstage.symm.trans (h.unique (.caller r f' ch cause hc))
    | closer _ _ hmem => cases hstage.symm.trans (h.unique (.closer r ch hmem))
  · have hfits := h.fits r
    rw [hstage] at hfits
    exact hfits.given (by nofun)

theorem Tracked.failed (h : Tracked s) (hplaced : Placed s) {j n r pending : Nat}
    {todo : List (Nat × Nat)} (hclose : s.closer = .sending j todo)
    (hn : todo[n]? = some (r, pending)) :
    Tracked { (s.send pending (.error .clientClosed)).setStage r
      (.given (.error .clientClosed)) with closer := .sending j (todo.eraseIdx n) } := by
  have htodo : s.todo = todo := by rw [State.todo, hclose]
  have hnodup : (todo.map (·.1)).Nodup := htodo ▸ hplaced.todo
  obtain ⟨hlt, hget⟩ := List.getElem?_eq_some_iff.mp hn
  have hperm : ((r, pending) :: todo.eraseIdx n).Perm todo :=
    hget ▸ List.getElem_cons_eraseIdx_perm hlt
  have hat : At s (.carried .closer (.error .clientClosed)) r pending :=
    .closer r pending (htodo ▸ hperm.subset List.mem_cons_self)
  have hstage := h.unique hat
  refine h.sent hat rfl (fun _ _ _ _ => Iff.rfl) (fun _ _ => rfl) (fun r' ch hr' => ?_) rfl
    (fun st ch hat' => ?_) ?_
  · rw [htodo, ← hperm.mem_iff, List.mem_cons, Prod.mk.injEq]
    exact (or_iff_right fun heq => hr' heq.1).symm
  · cases hat' with
    | entry _ _ hmem => cases hstage.symm.trans (h.unique (.entry r ch hmem))
    | worker _ _ body' hw => cases hstage.symm.trans (h.unique (.worker r ch body' hw))
    | caller _ f' _ cause hc => cases hstage.symm.trans (h.unique (.caller r f' ch cause hc))
    | closer _ _ hmem =>
      have hout := (List.nodup_cons.mp ((hperm.map (·.1)).nodup_iff.mpr hnodup)).1
      exact hout (List.mem_map.mpr ⟨(r, ch), hmem, rfl⟩)
  · have hfits := h.fits r
    rw [hstage] at hfits
    exact hfits.given (by nofun)

/-! ## The invariant -/

/-- The invariant of the futures. -/
structure Inv (s : State ρ) : Prop where
  books : OneShot.Valid s.books
  placed : Placed s
  guarded : Guarded s
  tracked : Tracked s

theorem unlocked_future (f : Option Nat) (refusal : Option Refusal) :
    (unlocked f refusal : Call ρ).future = f := by
  cases f with
  | none => rfl
  | some f => cases refusal <;> rfl

/-- While the lock of a shard is free, no request of the shard is inside. -/
theorem Guarded.outside (h : Guarded s) {r : Nat} (hmu : s.mu (pendingShardIndex r) = none) :
    (s.calls r).locked = false := by
  cases hlocked : (s.calls r).locked with
  | false => rfl
  | true => exact absurd ⟨rfl, hlocked⟩ (hmu ▸ h.lock (pendingShardIndex r)).free

/-- The request ID in a future is that of the call that has it. -/
theorem Inv.requestID_eq (h : Inv s) {r f : Nat} (hcell : s.cell r = some f) :
    s.requestID f = r := (h.books.owned r f hcell).1

/-- What is in the channel of a call was given to it. -/
theorem Inv.stage_of_channel (h : Inv s) {r f : Nat} {result : Result ρ}
    (hcell : s.cell r = some f) (hf : s.channel f = some result) : s.stages r = .given result := by
  obtain ⟨r', hr', hgiven⟩ := h.books.filled f result hf
  obtain rfl := h.books.owner_unique hr' hcell
  exact hgiven

theorem Still.of_rfl {calls : Nat → Call ρ} {mu : Nat → Option Nat} {requestID : Nat → Nat}
    {made : Nat} {futurePool : List Nat} :
    Still s { s with calls, mu, requestID, made, futurePool } := ⟨rfl, rfl, rfl, rfl⟩

/-- No worker starts or ends a send. -/
theorem SameAt.setWorker {j : Nat} {w : Worker ρ}
    (hold : ∀ r body ch, s.workers j ≠ .sending r body ch)
    (hnew : ∀ r body ch, w ≠ .sending r body ch) (r : Nat) : SameAt s (s.setWorker j w) r := by
  refine ⟨fun _ => Iff.rfl, fun body ch => ?_, fun _ _ _ => Iff.rfl, fun _ => Iff.rfl⟩
  by_cases hj : pendingShardIndex r = j
  · subst hj
    simp only [State.setWorker, Function.update_self]
    exact iff_of_false (hnew r body ch) (hold r body ch)
  · simp [State.setWorker, Function.update_of_ne hj]

theorem SameAt.of_todo {closer : Closer} {canceled panicked : Bool} {futurePool : List Nat}
    (htodo : State.todo { s with closer } = s.todo) (r : Nat) :
    SameAt s { s with closer, canceled, panicked, futurePool } r :=
  ⟨fun _ => Iff.rfl, fun _ _ => Iff.rfl, fun _ _ _ => Iff.rfl, fun ch => by
    show (r, ch) ∈ State.todo { s with closer } ↔ _
    rw [htodo]⟩

theorem Tracked.after_step (h : Inv s) (hs : Step s s') : Tracked s' := by
  have ht := h.tracked
  have hfits : ∀ {r c}, s.calls r = c → Fits c (s.stages r) := fun hr => hr ▸ ht.fits _
  have hnowhere : ∀ {r}, s.stages r = .unregistered ∨ (∃ result, s.stages r = .taken result) →
      ¬ Moving (s.stages r) := by
    rintro r (hst | ⟨result, hst⟩) <;> (rw [hst]; rintro (hm | ⟨_, _, hm⟩) <;> cases hm)
  cases hs with
  | reused r n f hr hf | made r hr =>
    have hstage : s.stages r = .unregistered := hfits hr
    exact ht.go_on hr rfl .of_rfl nofun nofun (Or.inr (hnowhere (Or.inl hstage))) hstage
  | noResponse r hr | locked r f hr hmu =>
    have hstage : s.stages r = .unregistered := hfits hr
    exact ht.go_on hr rfl .of_rfl nofun nofun (Or.inl rfl) hstage
  | turnedAway r f hr =>
    have hstage : s.stages r = .unregistered := hfits hr
    refine ht.go_on hr rfl .of_rfl nofun nofun (Or.inl rfl) ?_
    cases f <;> exact hstage
  | passed r hr =>
    have hstage : s.stages r = .unregistered := hfits hr
    exact ht.go_on hr rfl .of_rfl nofun nofun (Or.inl rfl) hstage
  | panicked r f hr hc hp => exact ht.unmoved (SameAt.of_todo rfl) rfl rfl
  | registered r f m hr hp => exact ht.registered hr hp
  | queued r f hr =>
    refine ht.go_on hr rfl .of_rfl nofun nofun (Or.inl rfl) ?_
    cases f with
    | none => exact (hfits hr : s.stages r = .unregistered)
    | some f => exact (hfits hr : s.stages r = .registered)
  | full r f hr => exact ht.full hr
  | left r f refusal hr =>
    refine ht.go_on hr rfl .of_rfl nofun ?_ (Or.inl (unlocked_future f refusal)) ?_
    · cases f <;> cases refusal <;> nofun
    · cases f with
      | none => exact (hfits hr : s.stages r = .unregistered)
      | some f =>
        cases refusal with
        | none =>
          have hstage : s.stages r = .registered := hfits hr
          rw [hstage]
          exact ⟨nofun, nofun, nofun⟩
        | some refusal => exact (hfits hr : s.stages r = .unregistered)
  | refused r f refusal hr =>
    have hstage : s.stages r = .unregistered := hfits hr
    exact ht.go_on hr rfl .of_rfl nofun nofun (Or.inr (hnowhere (Or.inl hstage))) hstage
  | released r f result hr =>
    have hstage : s.stages r = .taken result := hfits hr
    exact ht.go_on hr rfl .of_rfl nofun nofun (Or.inr (hnowhere (Or.inr ⟨result, hstage⟩))) hstage
  | received r f result hr hf =>
    refine ht.received (h.stage_of_channel ?_ hf)
    rcases hr with hr | hr <;> (rw [State.cell, hr]; rfl)
  | gaveUp r f cause hr =>
    have hout : Outstanding (s.stages r) := hfits hr
    exact ht.go_on hr rfl .of_rfl nofun nofun (Or.inl rfl) hout
  | late r f cause hr hfind =>
    have hout : Outstanding (s.stages r) := hfits hr
    have hcell : s.cell r = some f := by rw [State.cell, hr]; rfl
    rw [h.requestID_eq hcell] at hfind
    refine ht.go_on hr rfl .of_rfl nofun nofun (Or.inl rfl) ⟨hout, fun hstage => ?_⟩
    cases (ht.at_iff _ _ _).mpr ⟨Or.inl rfl, hstage, hcell⟩ with
    | entry _ _ hmem => exact find_none hfind hmem
  | removed r f pending cause hr hmu hfind =>
    rw [h.requestID_eq (by rw [State.cell, hr]; rfl)] at hfind ⊢
    exact ht.removed hr hfind
  | delivered r f pending cause hr hroom => exact ht.delivered hr
  | responded r body hw | unknown j r body hw =>
    exact ht.unmoved (SameAt.setWorker (by rw [hw]; nofun) nofun) rfl rfl
  | completed j r pending body hw hmu hfind =>
    have hj : pendingShardIndex r = j := h.placed.worker j r (by rw [hw]; rfl)
    exact ht.completed hw hj (h.guarded.outside (hj.symm ▸ hmu)) hfind
  | answered j r pending body hw hroom =>
    exact ht.answered hw (h.placed.worker j r (by rw [hw]; rfl))
  | retired j hw => exact ht.unmoved (SameAt.setWorker (by rw [hw]; nofun) nofun) rfl rfl
  | closed hclose =>
    refine ht.unmoved (SameAt.of_todo ?_) rfl rfl
    rw [State.todo, State.todo, hclose]
  | swept j hclose hmu =>
    exact ht.swept h.placed hclose fun r hr => h.guarded.outside (hr.symm ▸ hmu)
  | next j hclose =>
    refine ht.unmoved (SameAt.of_todo ?_) rfl rfl
    rw [State.todo, State.todo, hclose]
  | failed j n r pending todo hclose hn hroom => exact ht.failed h.placed hclose hn
  | dropped n => exact ht.unmoved (SameAt.of_todo rfl) rfl rfl

/-! ## Every step is a move of the books -/

theorem books_setCall (s : State ρ) (r : Nat) (c : Call ρ) :
    (s.setCall r c).books = { s.books with cell := Function.update s.cell r c.future } := by
  have hcell : (s.setCall r c).cell = Function.update s.cell r c.future := by
    funext r'
    simp only [State.cell, State.setCall]
    by_cases hr : r' = r
    · subst hr
      rw [Function.update_self, Function.update_self]
    · rw [Function.update_of_ne hr, Function.update_of_ne hr]
      rfl
  rw [State.books, hcell]
  rfl

/-- A call that goes on with its future does not touch the books. -/
theorem books_keep {r : Nat} {c : Call ρ} (hr : s.calls r = c) (c' : Call ρ)
    (hc : c'.future = c.future) :
    (s.setCall r c').books = s.books := by
  have hcell : c'.future = s.cell r := by rw [hc, State.cell, hr]
  rw [books_setCall, hcell, Function.update_eq_self]
  rfl

theorem update_eq_ite (st : Nat → OneShot.Stage Completer (Result ρ)) (r : Nat)
    (x : OneShot.Stage Completer (Result ρ)) :
    Function.update st r x = fun r' => if r' ∈ [r] then x else st r' := by
  funext r'
  rw [Function.update_apply]
  simp

/-- **Every step is a move of the books, or none.** -/
theorem Inv.move (h : Inv s) (hs : Step s s') :
    s'.books = s.books ∨ OneShot.Move s.books s'.books := by
  have hfits : ∀ {r c}, s.calls r = c → Fits c (s.stages r) := fun hr => hr ▸ h.tracked.fits _
  have hcell : ∀ {r c}, s.calls r = c → s.cell r = c.future := fun hr => by rw [State.cell, hr]
  cases hs with
  | reused r n f hr hf =>
    rw [books_setCall]
    exact Or.inr (.reuse r n f (hcell hr) (hfits hr) hf)
  | made r hr =>
    rw [books_setCall]
    exact Or.inr (.make r (hcell hr) (hfits hr))
  | noResponse r hr | locked r f hr hmu | turnedAway r f hr | passed r hr =>
    exact Or.inl (books_keep hr _ rfl)
  | panicked r f hr hc hp => exact Or.inl rfl
  | registered r f m hr hp =>
    have hbooks := books_keep hr (.registered (some f)) rfl
    refine Or.inr ?_
    show OneShot.Move s.books { (s.setCall r (.registered (some f))).books with
      stage := Function.update s.stages r .registered }
    rw [hbooks]
    exact .register r f (hcell hr) (hfits hr)
  | queued r f hr => exact Or.inl (books_keep hr _ rfl)
  | full r f hr =>
    show { (s.setCall r (.leaving f (some .sendQueueFull))).books with
        stage := Function.update s.stages r .unregistered } = s.books ∨
      OneShot.Move s.books { (s.setCall r (.leaving f (some .sendQueueFull))).books with
        stage := Function.update s.stages r .unregistered }
    rw [books_keep hr (.leaving f (some .sendQueueFull)) rfl]
    cases f with
    | none =>
      have hstage : s.stages r = .unregistered := hfits hr
      refine Or.inl ?_
      rw [← hstage, Function.update_eq_self]
      rfl
    | some f => exact Or.inr (.withdraw r (hfits hr))
  | left r f refusal hr => exact Or.inl (books_keep hr _ (unlocked_future f refusal))
  | refused r f refusal hr =>
    rw [books_setCall]
    exact Or.inr (.release r f 0 (hcell hr) (Or.inl (hfits hr)))
  | released r f result hr =>
    rw [books_setCall]
    exact Or.inr (.release r f 0 (hcell hr) (Or.inr ⟨result, hfits hr⟩))
  | received r f result hr hf =>
    have hfuture : s.cell r = some f := by rcases hr with hr | hr <;> exact hcell hr
    have hbooks : (s.setCall r (.received f result)).books = s.books := by
      rcases hr with hr | hr <;> exact books_keep hr _ rfl
    refine Or.inr ?_
    show OneShot.Move s.books { (s.setCall r (.received f result)).books with
      content := Function.update s.channel f none
      stage := Function.update s.stages r (.taken result) }
    rw [hbooks]
    exact .take r f result hfuture hf
  | gaveUp r f cause hr | late r f cause hr hfind => exact Or.inl (books_keep hr _ rfl)
  | removed r f pending cause hr hmu hfind =>
    rw [h.requestID_eq (hcell hr)] at hfind ⊢
    have hstage := h.tracked.unique (.entry r pending (find_some hfind))
    refine Or.inr ?_
    show OneShot.Move s.books { (s.setCall r (.completing f cause pending)).books with
      stage := Function.update s.stages r (.carried .caller (.error cause)) }
    rw [books_keep hr (.completing f cause pending) rfl, update_eq_ite]
    exact OneShot.Move.carry (b := s.books) [r] .caller _ fun r' hr' =>
      List.mem_singleton.mp hr' ▸ hstage
  | delivered r f pending cause hr hroom =>
    obtain ⟨-, hstage, hfuture⟩ := (h.tracked.at_iff _ _ _).mp (.caller r f pending cause hr)
    refine Or.inr ?_
    show OneShot.Move s.books { (s.setCall r (.receiving f)).books with
      content := Function.update s.channel pending (some (.error cause))
      stage := Function.update s.stages r (.given (.error cause))
      results := Function.update s.results (s.requestID pending)
        (s.results (s.requestID pending) ++ [.error cause]) }
    rw [books_keep hr (.receiving f) rfl]
    exact OneShot.Move.put (b := s.books) r pending .caller _ hfuture hstage
  | responded r body hw | unknown j r body hw => exact Or.inl rfl
  | completed j r pending body hw hmu hfind =>
    have hstage := h.tracked.unique (.entry r pending (find_some hfind))
    refine Or.inr ?_
    show OneShot.Move s.books { s.books with
      stage := Function.update s.stages r (.carried .worker (.response r body)) }
    rw [update_eq_ite]
    exact OneShot.Move.carry (b := s.books) [r] .worker _ fun r' hr' =>
      List.mem_singleton.mp hr' ▸ hstage
  | answered j r pending body hw hroom =>
    have hj : pendingShardIndex r = j := h.placed.worker j r (by rw [hw]; rfl)
    obtain ⟨-, hstage, hfuture⟩ :=
      (h.tracked.at_iff _ _ _).mp (.worker r pending body (hj.symm ▸ hw))
    exact Or.inr (OneShot.Move.put (b := s.books) r pending .worker _ hfuture hstage)
  | retired j hw | closed hclose => exact Or.inl rfl
  | swept j hclose hmu =>
    have hstage : ∀ r ∈ (s.entries j).map (·.1), s.stages r = .registered := by
      intro r hr
      obtain ⟨⟨_, ch⟩, he, rfl⟩ := List.mem_map.mp hr
      exact h.tracked.unique (.entry _ ch ((h.placed.entries j _ he).symm ▸ he))
    exact Or.inr (OneShot.Move.carry (b := s.books) _ .closer (.error .clientClosed) hstage)
  | next j hclose => exact Or.inl rfl
  | failed j n r pending todo hclose hn hroom =>
    have hmem : (r, pending) ∈ s.todo := by
      rw [State.todo, hclose]
      exact List.mem_of_getElem? hn
    obtain ⟨-, hstage, hfuture⟩ := (h.tracked.at_iff _ _ _).mp (.closer r pending hmem)
    exact Or.inr (OneShot.Move.put (b := s.books) r pending .closer _ hfuture hstage)
  | dropped n => exact Or.inr (.forget n)

theorem Inv.after_step (h : Inv s) (hs : Step s s') : Inv s' where
  books := by
    rcases h.move hs with heq | hm
    · exact heq ▸ h.books
    · exact h.books.after_move hm
  placed := h.placed.after_step hs
  guarded := h.guarded.after_step hs
  tracked := Tracked.after_step h hs

theorem Inv.init : Inv (State.init : State ρ) where
  books := by
    refine ⟨by nofun, ⟨List.nodup_nil, by nofun⟩, by nofun, by nofun, ?_, fun _ => rfl⟩
    rintro r (hr | ⟨_, _, hr⟩) <;> cases hr
  placed := ⟨fun _ => List.nodup_nil, by nofun, by nofun, List.nodup_nil⟩
  guarded := ⟨rfl, fun hne => absurd rfl hne, by nofun, fun j r => by simp [State.init, Call.locked]⟩
  tracked := by
    refine ⟨fun st r ch => ?_, fun _ => rfl, fun _ => trivial⟩
    refine iff_of_false (fun hat => ?_) ?_
    · cases hat with
      | entry _ _ hmem => exact absurd hmem List.not_mem_nil
      | worker _ _ _ hw => cases hw
      | caller _ _ _ _ hc => cases hc
      | closer _ _ hmem => exact absurd hmem List.not_mem_nil
    · rintro ⟨-, -, hch⟩
      cases hch

end RedLease.Client1of1.Futures
