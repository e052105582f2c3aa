import RedLease.Slots.Ownership

/-!
# The life of a launcher

What holds of one launcher in every place of its main goroutine, whatever etcd and the other
launchers do: any reply can come back.

* `Sound`: the server, the registration and the acquisition that can exist in each place.
* **`sound_of_exec`**: it holds of every launcher in every reachable state.
* **`stopped_before_revoke`**: a server runs only with a registration and never beside an acquisition;
  the lease of a registration is given up only when the server is stopped and the worker has
  returned; a launcher that is closed has left nothing behind.
-/

namespace RedLease.Slots

open Lib Lib.Etcd Lib.Trans Launcher

/-! ## Places of the main goroutine -/

/-- Where the main goroutine can be with a registration of its own, and what is then known. -/
def HeldAt (server : Bool) (r : Registration) : Main → Prop
  | .select => server = true
  | .starting => server = false
  | .recoverStop => server = true
  | .recoverWait => server = false ∧ r.cancelled = true
  | .recoverRevoke => server = false ∧ r.worker = .exited
  | .shutStop => True
  | .shutAcquisition => False
  | .shutWait => server = false ∧ r.cancelled = true
  | .shutRevoke => server = false ∧ r.worker = .exited
  | .closed => False

/-- Where the main goroutine can be beside an acquisition. -/
def AcquiresAt (main : Main) : Prop := main = .select ∨ main = .shutStop ∨ main = .shutAcquisition

/-- Where the main goroutine can be when there is nothing. -/
def EmptyAt (main : Main) : Prop := main = .shutStop ∨ main = .closed

instance (main : Main) : Decidable (AcquiresAt main) := inferInstanceAs (Decidable (_ ∨ _))

instance (main : Main) : Decidable (EmptyAt main) := inferInstanceAs (Decidable (_ ∨ _))

/-- A launcher acquires, holds a registration or has nothing. -/
inductive Sound (l : Launcher) : Prop
  | acquires (a : Acquiring) (ha : l.acquisition = some a)
      (hr : l.registration.isSome = true ↔ a = .finished true) (hs : l.server = false)
      (hm : AcquiresAt l.main)
  | held (r : Registration) (ha : l.acquisition = none) (hr : l.registration = some r)
      (hm : HeldAt l.server r l.main)
  | empty (ha : l.acquisition = none) (hr : l.registration = none) (hs : l.server = false)
      (hm : EmptyAt l.main)

section Moves

variable {cfg : Config} {p : Nat} {l l' : Launcher}

theorem sound_start : Sound Launcher.start :=
  .acquires .creating rfl ⟨by rintro ⟨⟩, by rintro ⟨⟩⟩ rfl (Or.inl rfl)

theorem Sound.of_acquisition (h : Sound l) {a : Acquiring} (ha : l.acquisition = some a) :
    (l.registration.isSome = true ↔ a = .finished true) ∧ l.server = false ∧ AcquiresAt l.main := by
  cases h with
  | acquires b hb hr hs hm =>
    cases ha.symm.trans hb
    exact ⟨hr, hs, hm⟩
  | held r hb hr hm | empty hb hr hs hm => cases ha.symm.trans hb

/-- While the acquisition runs there is no registration. -/
theorem Sound.unregistered (h : Sound l) {a : Acquiring} (ha : l.acquisition = some a)
    (hna : a ≠ .finished true) : l.registration = none := by
  obtain ⟨hr, -⟩ := h.of_acquisition ha
  exact Option.not_isSome_iff_eq_none.mp fun hsome => hna (hr.mp hsome)

/-- In most places there is a registration. -/
theorem Sound.of_main (h : Sound l) {main : Main} (hmain : l.main = main)
    (hna : ¬ AcquiresAt main ∧ ¬ EmptyAt main) :
    ∃ r, l.acquisition = none ∧ l.registration = some r ∧ HeldAt l.server r main := by
  subst hmain
  cases h with
  | acquires b hb hr hs hm => exact absurd hm hna.1
  | held r ha hr hm => exact ⟨r, ha, hr, hm⟩
  | empty ha hr hs hm => exact absurd hm hna.2

/-- An acquisition goes on without a registration. -/
theorem Sound.acquire (h : Sound l) {a a' : Acquiring} (ha : l.acquisition = some a)
    (hna : a ≠ .finished true) (hna' : a' ≠ .finished true) : Sound (l.acquire a') := by
  obtain ⟨-, hs, hm⟩ := h.of_acquisition ha
  refine .acquires a' rfl ?_ hs hm
  show l.registration.isSome = true ↔ a' = .finished true
  rw [h.unregistered ha hna]
  exact ⟨by rintro ⟨⟩, fun heq => absurd heq hna'⟩

/-- The worker of a registration goes on. -/
theorem Sound.work (h : Sound l) {r r' : Registration} {worker : Worker}
    (hr : l.registration = some r) (hw : r.worker ≠ .exited) (hc : r'.cancelled = r.cancelled) :
    Sound (l.work r' worker) := by
  cases h with
  | acquires a ha hiff hs hm =>
    rw [hr] at hiff
    exact .acquires a ha hiff hs hm
  | held r₀ ha hr₀ hm =>
    cases hr.symm.trans hr₀
    refine .held { r' with worker } ha rfl ?_
    show HeldAt l.server { r' with worker } l.main
    cases hmain : l.main <;> rw [hmain] at hm
    case recoverWait => exact ⟨hm.1, hc.trans hm.2⟩
    case shutWait => exact ⟨hm.1, hc.trans hm.2⟩
    case recoverRevoke => exact absurd hm.2 hw
    case shutRevoke => exact absurd hm.2 hw
    all_goals exact hm
  | empty ha hnone hs hm => cases hr.symm.trans hnone

theorem proceed_unfinished (l : Launcher) (after : After) : l.proceed after ≠ .finished true := by
  unfold proceed
  split <;> split_ifs <;> rintro ⟨⟩

/-- `Close` goes on when there is no acquisition any more. -/
theorem sound_shut (ha : l'.acquisition = none) (hr : l'.registration = l.shut.registration)
    (hs : l'.server = false) (hm : l'.main = l.shut.main) : Sound l' := by
  unfold shut at hr hm
  cases hreg : l.registration with
  | some r =>
    rw [hreg] at hr hm
    refine .held _ ha hr ?_
    rw [hm, hs]
    exact ⟨rfl, rfl⟩
  | none =>
    rw [hreg] at hr hm
    exact .empty ha (hr.trans hreg) hs (Or.inr hm)

theorem Sound.move (h : Sound l) {m : Move} (hl : l.move m = some l') : Sound l' := by
  cases m with
  | signal =>
    cases hl
    cases h with
    | acquires a ha hr hs hm => exact .acquires a ha hr hs hm
    | held r ha hr hm => exact .held r ha hr hm
    | empty ha hr hs hm => exact .empty ha hr hs hm
  | create ok =>
    obtain ⟨ha, ⟨⟩⟩ := Option.ite_none_right_eq_some.mp hl
    exact h.acquire ha (by decide) (by cases ok <;> decide)
  | watchFails =>
    dsimp only [Launcher.move] at hl
    split at hl <;> cases hl
    rename_i revision ha
    exact h.acquire ha (by rintro ⟨⟩) (proceed_unfinished l .failed)
  | retry timer =>
    obtain ⟨⟨ha, -⟩, ⟨⟩⟩ := Option.ite_none_right_eq_some.mp hl
    exact h.acquire ha (by decide) (by cases timer <;> decide)
  | tick =>
    obtain ⟨r, hr, hl⟩ := Option.bind_eq_some_iff.mp hl
    obtain ⟨hw, ⟨⟩⟩ := Option.ite_none_right_eq_some.mp hl
    exact h.work hr (by rw [hw]; decide) rfl
  | leave =>
    obtain ⟨r, hr, hl⟩ := Option.bind_eq_some_iff.mp hl
    obtain ⟨⟨hw, -⟩, ⟨⟩⟩ := Option.ite_none_right_eq_some.mp hl
    exact h.work hr (by rw [hw]; decide) rfl
  | finish ok =>
    obtain ⟨⟨-, ha⟩, ⟨⟩⟩ := Option.ite_none_right_eq_some.mp hl
    obtain ⟨hr, hs, -⟩ := h.of_acquisition ha
    cases ok with
    | true =>
      obtain ⟨r, hreg⟩ := Option.isSome_iff_exists.mp (hr.mpr rfl)
      exact .held r rfl hreg hs
    | false => exact .empty rfl (h.unregistered ha (by decide)) hs (Or.inl rfl)
  | start ok =>
    obtain ⟨hm, ⟨⟩⟩ := Option.ite_none_right_eq_some.mp hl
    obtain ⟨r, ha, hr, -⟩ := h.of_main hm (by decide)
    cases ok with
    | true => exact .held r ha hr rfl
    | false => exact .held r ha hr trivial
  | lost =>
    obtain ⟨r, hr, hl⟩ := Option.bind_eq_some_iff.mp hl
    obtain ⟨⟨hm, ha, -⟩, ⟨⟩⟩ := Option.ite_none_right_eq_some.mp hl
    refine .held _ ha rfl ?_
    cases h with
    | acquires a ha' hr' hs hat => cases ha.symm.trans ha'
    | held r' ha' hr' hat =>
      rw [hm] at hat
      exact hat
    | empty ha' hr' hs hat => cases hr.symm.trans hr'
  | stop ok =>
    dsimp only [Launcher.move] at hl
    split_ifs at hl with hrec hok hstop hacq
    · obtain ⟨r, hr, rfl⟩ := Option.map_eq_some_iff.mp hl
      obtain ⟨_, ha, -⟩ := h.of_main hrec (by decide)
      exact .held _ ha rfl ⟨rfl, rfl⟩
    · obtain ⟨r, hr, rfl⟩ := Option.map_eq_some_iff.mp hl
      obtain ⟨_, ha, -⟩ := h.of_main hrec (by decide)
      exact .held r ha hr trivial
    · cases hl
      obtain ⟨a, ha⟩ := Option.isSome_iff_exists.mp hacq
      exact .acquires a ha (h.of_acquisition ha).1 rfl (Or.inr (Or.inr rfl))
    · cases hl
      refine sound_shut ?_ rfl rfl rfl
      exact (shut_acquisition l).1.trans (Option.not_isSome_iff_eq_none.mp hacq)
  | waited =>
    obtain ⟨r, hr, hl⟩ := Option.bind_eq_some_iff.mp hl
    split_ifs at hl with hrec hshut <;> cases hl
    · obtain ⟨_, ha, -, hat⟩ := h.of_main hrec.2 (by decide)
      exact .held r ha hr ⟨hat.1, hrec.1⟩
    · obtain ⟨_, ha, -, hat⟩ := h.of_main hshut.2 (by decide)
      exact .held r ha hr ⟨hat.1, hshut.1⟩
  | shutdown =>
    obtain ⟨-, ⟨⟩⟩ := Option.ite_none_right_eq_some.mp hl
    cases h with
    | acquires a ha hr hs hat => exact .acquires a ha hr hs (Or.inr (Or.inl rfl))
    | held r ha hr hat => exact .held r ha hr trivial
    | empty ha hr hs hat => exact .empty ha hr hs (Or.inl rfl)
  | collect =>
    dsimp only [Launcher.move] at hl
    split at hl
    · rename_i ok ha
      obtain ⟨-, ⟨⟩⟩ := Option.ite_none_right_eq_some.mp hl
      obtain ⟨-, hs, -⟩ := h.of_acquisition ha
      refine sound_shut rfl rfl ?_ rfl
      show l.shut.server = false
      unfold shut
      split <;> exact hs
    · cases hl

theorem Sound.resume (h : Sound l) {c : Caller} {result : Option Reply}
    (hl : l.resume cfg p result c = some l') : Sound l' := by
  cases c with
  | acquisition =>
    dsimp only [Launcher.resume, resumeAcquisition] at hl
    split at hl
    · rename_i slot ha
      split at hl <;> cases hl
      · exact h.acquire ha (by rintro ⟨⟩) (by rintro ⟨⟩)
      · exact h.acquire ha (by rintro ⟨⟩) (proceed_unfinished l _)
    · rename_i slot lease ha
      split at hl <;> cases hl
      · obtain ⟨-, hs, hat⟩ := h.of_acquisition ha
        exact .acquires _ rfl ⟨fun _ => rfl, fun _ => rfl⟩ hs hat
      all_goals exact h.acquire ha (by rintro ⟨⟩) (by rintro ⟨⟩)
    · rename_i lease after ha
      cases hl
      exact h.acquire ha (by rintro ⟨⟩) (proceed_unfinished l after)
    · rename_i ha
      split at hl <;> cases hl
      · exact h.acquire ha (by decide) (by split_ifs <;> rintro ⟨⟩)
      · exact h.acquire ha (by decide) (proceed_unfinished l _)
    · cases hl
  | worker =>
    obtain ⟨r, hr, hl⟩ := Option.bind_eq_some_iff.mp hl
    obtain ⟨hw, hl⟩ := Option.ite_none_right_eq_some.mp hl
    have hw' : r.worker ≠ .exited := by
      rw [hw]
      decide
    dsimp only at hl
    split at hl <;> cases hl <;> split_ifs <;> exact h.work hr hw' rfl
  | main =>
    dsimp only [Launcher.resume, resumeMain] at hl
    split at hl <;> cases hl
    · rename_i hm
      obtain ⟨_, -, -, hat⟩ := h.of_main hm (by decide)
      exact .acquires .creating rfl ⟨by rintro ⟨⟩, by rintro ⟨⟩⟩ hat.1 (Or.inl rfl)
    · rename_i hm
      obtain ⟨_, ha, -, hat⟩ := h.of_main hm (by decide)
      exact .empty ha rfl hat.1 (Or.inr rfl)

theorem Sound.answer (h : Sound l) (x : Reply) (c : Caller) : Sound (l.answer x c) := by
  cases h with
  | acquires a ha hr hs hm => exact .acquires a ha hr hs hm
  | held r ha hr hm => exact .held r ha hr hm
  | empty ha hr hs hm => exact .empty ha hr hs hm

end Moves

/-! ## Every reachable state -/

section Runs

variable {e : Service String String} {cfg : Config} {s s' : State e} {p : Nat}

theorem sound_step (h : ∀ q, Sound (s.launcher q)) {a : Act e} (hs : s.step cfg a = some s') :
    ∀ q, Sound (s'.launcher q) := by
  cases State.step_cases hs with
  | happen x => exact h
  | late p req abandoned => exact h
  | serve p c req hc => exact forall_setLauncher (P := fun _ => Sound) h ((h p).answer _ c)
  | returned p c req result l abandoned hc hresult hl =>
    exact forall_setLauncher (P := fun _ => Sound) h ((h p).resume hl)
  | deletion p revision ha =>
    exact forall_setLauncher (P := fun _ => Sound) h
      ((h p).acquire ha (by rintro ⟨⟩) (by rintro ⟨⟩))
  | move p m l hl => exact forall_setLauncher (P := fun _ => Sound) h ((h p).move hl)

theorem sound_of_exec {store : e.State} {acts : List (Act e)}
    (h : exec (State.step cfg) (State.start store) acts = some s) : ∀ q, Sound (s.launcher q) :=
  exec_invariant (I := fun s => ∀ q, Sound (s.launcher q)) (fun hq hs => sound_step hq hs)
    (fun _ => sound_start) h

/-- A server runs only with a registration. -/
theorem Sound.serving {l : Launcher} (h : Sound l) (hserver : l.server = true) :
    l.acquisition = none ∧ ∃ r, l.registration = some r := by
  cases h with
  | acquires a ha hr hs hm => cases hserver.symm.trans hs
  | held r ha hr hm => exact ⟨ha, r, hr⟩
  | empty ha hr hs hm => cases hserver.symm.trans hs

/-- The main goroutine asks etcd for something only when nothing else of the launcher is left. -/
theorem Sound.revoking {l : Launcher} (h : Sound l) {req : Request}
    (hc : l.call cfg p .main = some req) :
    l.server = false ∧ l.acquisition = none ∧
      ∃ r, l.registration = some r ∧ r.worker = .exited ∧ req = .revoke r.lease := by
  obtain ⟨hm, hc⟩ := Option.ite_none_right_eq_some.mp hc
  obtain ⟨r, hr, rfl⟩ := Option.map_eq_some_iff.mp hc
  rcases hm with hm | hm
  all_goals
    obtain ⟨r', ha, hr', hat⟩ := h.of_main hm (by decide)
    cases hr.symm.trans hr'
    exact ⟨hat.1, ha, r, hr, hat.2, rfl⟩

theorem Sound.of_closed {l : Launcher} (h : Sound l) (hm : l.main = .closed) :
    l.server = false ∧ l.acquisition = none ∧ l.registration = none := by
  cases h with
  | acquires a ha hr hs hat =>
    rw [hm] at hat
    exact absurd hat (by decide)
  | held r ha hr hat =>
    rw [hm] at hat
    cases hat
  | empty ha hr hs hat => exact ⟨hs, ha, hr⟩

variable (cfg) (store : e.State) (acts : List (Act e))

/-- **A launcher serves only while it is registered, and gives its lease up last.** -/
theorem stopped_before_revoke (h : exec (State.step cfg) (State.start store) acts = some s)
    (p : Nat) :
    ((s.launcher p).server = true →
      (s.launcher p).acquisition = none ∧ ∃ r, (s.launcher p).registration = some r) ∧
    (∀ req, (s.launcher p).call cfg p .main = some req →
      (s.launcher p).server = false ∧ (s.launcher p).acquisition = none ∧
        ∃ r, (s.launcher p).registration = some r ∧ r.worker = .exited ∧
          req = .revoke r.lease) ∧
    ((s.launcher p).main = .closed →
      (s.launcher p).server = false ∧ (s.launcher p).acquisition = none ∧
        (s.launcher p).registration = none) := by
  have hsound := sound_of_exec h p
  exact ⟨hsound.serving, fun _ hc => hsound.revoking hc, hsound.of_closed⟩

/-- A launcher takes the first slot and runs its server. -/
def servingRun : List (Act Etcd.store) := takes 0 ++ [.move 0 (.finish true), .move 0 (.start true)]

/-- It shuts down, up to the revocation. -/
def stoppingRun : List (Act Etcd.store) :=
  servingRun ++ [.move 0 .shutdown, .move 0 (.stop true), .move 0 .leave, .move 0 .waited]

theorem stopped_before_revoke_stoppingRun : ∃ s r,
    exec (State.step sixLaunchers) (State.start Store.empty) stoppingRun = some s ∧
      (s.launcher 0).call sixLaunchers 0 .main = some (.revoke 0) ∧
      (s.launcher 0).registration = some r ∧ r.worker = .exited :=
  ⟨_, _, rfl, rfl, rfl, by
    obtain ⟨-, -, r, hr, hw, -⟩ :=
      (stopped_before_revoke sixLaunchers Store.empty stoppingRun rfl 0).2.1 (.revoke 0) rfl
    cases hr
    exact hw⟩

end Runs

end RedLease.Slots
