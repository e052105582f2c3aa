import RedLease.Client.Validity

/-!
# Background healing

`client/healing.go`: a lease that is valid for longer than some replica has confirmed it is healed
in the background, by one `backgroundHeal` at a time. Every public call and every collector ends
with `startBackgroundHealing`, and a run ends with `finishBackgroundHealing`, which starts the next
one if healing is needed at that moment.

The clock, and whether the client is closed, are part of the state here. Two fields are there to say
what happened: `told` is set when `waitForHealingRetry` returns false, and `runs` counts the runs of
`backgroundHeal`.

* **`one_healer`**: `healing` is set while a run of `backgroundHeal` exists, there is at most one,
  and if nobody else is at work on a lease that needs healing there is one.
* **`healing_over`**: a released lease is not healed again, and a run starts only where healing is
  needed.
* **`healing_resumes`**: a run that ended because the client is closed is followed by another one,
  since `finishBackgroundHealing` looks at the lease only.
-/

namespace RedLease.Client

open Lib

variable {n m : Nat}

/-- A run of `backgroundHeal` that is started or running. -/
def Task.healer : Task n → Bool
  | .healLoop | .healWait | .healTargets | .healBegin _ | .healSubmit _ _ _ | .healCollect _ _
  | .healFinish => true
  | _ => false

/-- A collector, up to the end of the `startBackgroundHealing` that it ends with. -/
def Task.collector : Task n → Bool
  | .collectAcquire _ _ | .collectRenew _ _ | .starting => true
  | _ => false

/-- No public call is in progress. -/
def Main.idle : Main n → Bool
  | .returned _ | .failed => true
  | _ => false

/-! ## What a step does to the healer -/

namespace Lease

variable {l l' : Lease n m} {quorumSize : Nat} {now : Time} {a : LeaseAct n m}

/-- No public call and no collector is in progress. -/
def Unattended (l : Lease n m) : Prop :=
  l.main.idle = true ∧ ∀ j, (l.tasks j).collector = false

/-- All that the goroutine in slot `j` can do to healing. -/
inductive TaskTurn (l : Lease n m) (now : Time) (j : Fin m) : Lease n m → Prop
  /-- A collector goes on. -/
  | collected (confirmedUntil : Fin n → Time) (task : Task n)
      (hold : (l.tasks j).collector = true) (hnew : task.collector = true) :
      TaskTurn l now j ({ l with confirmedUntil }.setTask j task)
  /-- `startBackgroundHealing` has nothing to do. -/
  | dismissed (hold : l.tasks j = .starting) (h : l.healing = true ∨ ¬ l.HealingNeeded now) :
      TaskTurn l now j (l.setTask j .idle)
  /-- `startBackgroundHealing` starts a run. -/
  | started (hold : l.tasks j = .starting) (hoff : l.healing = false)
      (hneeded : l.HealingNeeded now) :
      TaskTurn l now j ({ l with healing := true }.setTask j .healLoop)
  /-- A run goes on. -/
  | healed (confirmedUntil : Fin n → Time) (healingBatches : Nat) (task : Task n)
      (hold : (l.tasks j).healer = true) (hne : l.tasks j ≠ .healFinish)
      (hnew : task.healer = true) :
      TaskTurn l now j ({ l with confirmedUntil, healingBatches }.setTask j task)
  /-- `finishBackgroundHealing` starts the next run. -/
  | restarted (hold : l.tasks j = .healFinish) (hneeded : l.HealingNeeded now) :
      TaskTurn l now j ({ l with healing := true }.setTask j .healLoop)
  /-- `finishBackgroundHealing` ends healing. -/
  | finished (hold : l.tasks j = .healFinish) (hover : ¬ l.HealingNeeded now) :
      TaskTurn l now j ({ l with healing := false }.setTask j .idle)

theorem taskGo_turn {j : Fin m} {ok : Bool} (h : l.taskGo now j ok = some l') :
    TaskTurn l now j l' := by
  unfold taskGo at h
  split at h
  case h_1 start waits hw =>
    split_ifs at h
    cases h
    exact .collected l.confirmedUntil _ (by rw [hw]; rfl) rfl
  case h_2 start waits hw =>
    split_ifs at h
    cases h
    exact .collected l.confirmedUntil _ (by rw [hw]; rfl) rfl
  case h_3 hw =>
    split_ifs at h with hnot
    · cases h
      exact .dismissed hw hnot
    · cases h
      rw [not_or, Bool.not_eq_true, not_not] at hnot
      exact .started hw hnot.1 hnot.2
  case h_4 hw =>
    cases h
    exact .healed _ _ _ (by rw [hw]; rfl) (by rw [hw]; nofun) (by split_ifs <;> rfl)
  case h_5 hw =>
    cases h
    exact .healed _ _ _ (by rw [hw]; rfl) (by rw [hw]; nofun) (by split_ifs <;> rfl)
  case h_6 hw =>
    split_ifs at h
    · split at h
      all_goals
        cases h
        exact .healed _ _ _ (by rw [hw]; rfl) (by rw [hw]; nofun) rfl
    · cases h
      exact .healed _ _ _ (by rw [hw]; rfl) (by rw [hw]; nofun) rfl
  case h_7 targets hw =>
    split_ifs at h
    all_goals
      cases h
      exact .healed l.confirmedUntil _ _ (by rw [hw]; rfl) (by rw [hw]; nofun) rfl
  case h_8 start waits hw =>
    cases h
    exact .healed l.confirmedUntil _ _ (by rw [hw]; rfl) (by rw [hw]; nofun) rfl
  case h_9 start waits hw =>
    split_ifs at h
    cases h
    exact .healed _ _ _ (by rw [hw]; rfl) (by rw [hw]; nofun) rfl
  case h_10 hw =>
    split_ifs at h with hneeded
    · cases h
      exact .restarted hw hneeded
    · cases h
      exact .finished hw hneeded
  case h_11 => cases h

theorem taskReceive_turn {mark : Time} {j : Fin m} {r : Fin n} {response : Option Response}
    (h : l.taskReceive now mark j r response = some l') : TaskTurn l now j l' := by
  unfold taskReceive at h
  split at h
  case h_1 start waits hw =>
    split_ifs at h
    cases h
    obtain ⟨c, hc⟩ := l.confirmAcquire_eq now (now + mark) r (acquireCandidate start response)
    rw [hc]
    exact .collected c _ (by rw [hw]; rfl) rfl
  case h_2 start waits hw =>
    split_ifs at h
    cases h
    obtain ⟨c, hc⟩ := l.confirmRenew_eq now (now + mark) r (renewCandidate start response)
    rw [hc]
    exact .collected c _ (by rw [hw]; rfl) rfl
  case h_3 start waits hw =>
    split_ifs at h
    cases h
    obtain ⟨c, hc⟩ := l.confirmAcquire_eq now (now + mark) r (acquireCandidate start response)
    rw [hc]
    exact .healed c l.healingBatches _ (by rw [hw]; rfl) (by rw [hw]; nofun) rfl
  case h_4 => cases h

theorem taskStep_turn {j : Fin m} {b : TaskAct n} (h : l.taskStep now j b = some l') :
    TaskTurn l now j l' := by
  cases b with
  | go ok => exact taskGo_turn h
  | receive r response mark => exact taskReceive_turn h
  | submit requestID accepted =>
    simp only [taskStep, taskSubmit] at h
    split at h
    · rename_i start r todo waits hw
      cases h
      exact .healed l.confirmedUntil l.healingBatches _ (by rw [hw]; rfl) (by rw [hw]; rintro ⟨⟩) rfl
    · cases h
  | abandon =>
    simp only [taskStep, taskAbandon] at h
    split at h
    case h_4 => cases h
    case h_3 start waits hw =>
      split_ifs at h
      cases h
      exact .healed l.confirmedUntil l.healingBatches _ (by rw [hw]; rfl) (by rw [hw]; rintro ⟨⟩) rfl
    all_goals
      rename_i start waits hw
      split_ifs at h
      cases h
      exact .collected l.confirmedUntil _ (by rw [hw]; rfl) rfl

/-- All that a step can do to healing. -/
inductive Turn (l : Lease n m) (now : Time) : LeaseAct n m → Lease n m → Prop
  | task {l' : Lease n m} (j : Fin m) (b : TaskAct n) (h : TaskTurn l now j l') :
      Turn l now (.task j b) l'
  /-- The public call goes on, or leaves a collector behind. -/
  | attended {l' : Lease n m} (a : LeaseAct n m) (ha : ∀ j b, a ≠ .task j b)
      (hh : l'.healing = l.healing) (ht : ∀ j, (l'.tasks j).healer = (l.tasks j).healer)
      (hn : ¬ l'.Unattended) : Turn l now a l'
  /-- A call on a released lease returns. -/
  | still (a : LeaseAct n m) (ha : ∀ j b, a ≠ .task j b) (o o' : Outcome)
      (hm : l.main = .returned o) : Turn l now a (l.setMain (.returned o'))
  /-- `Release`. -/
  | ended {l' : Lease n m} (a : LeaseAct n m) (ha : ∀ j b, a ≠ .task j b)
      (hh : l'.healing = l.healing) (ht : l'.tasks = l.tasks) (hl : l'.lifecycle = .released) :
      Turn l now a l'

theorem not_unattended_of_main (h : l.main.idle = false) : ¬ l.Unattended := by
  rintro ⟨hmain, -⟩
  rw [h] at hmain
  cases hmain

theorem not_unattended_of_collector {j : Fin m} {task : Task n} (h : task.collector = true) :
    ¬ (l.setTask j task).Unattended := by
  rintro ⟨-, htasks⟩
  have hj : (Function.update l.tasks j task j).collector = false := htasks j
  rw [Function.update_self, h] at hj
  cases hj

theorem spawn_turn (l₀ : Lease n m) {j : Fin m} {task : Task n} (h : l.spawn j task = some l')
    (htask : task.collector = true) (hh : l.healing = l₀.healing) (ht : l.tasks = l₀.tasks) :
    l'.healing = l₀.healing ∧ (∀ i, (l'.tasks i).healer = (l₀.tasks i).healer) ∧
      ¬ l'.Unattended := by
  unfold spawn at h
  split at h
  · rename_i hidle
    cases h
    refine ⟨hh, fun i => ?_, not_unattended_of_collector htask⟩
    show (Function.update l.tasks j task i).healer = _
    by_cases hi : i = j
    · subst hi
      rw [Function.update_self, ← ht, hidle]
      cases task <;> first | rfl | cases htask
    · rw [Function.update_of_ne hi, ht]
  · cases h

/-- A step of the public call that changes neither its goroutines nor `healing`. -/
theorem Turn.calling {a : LeaseAct n m} (ha : ∀ j b, a ≠ .task j b) (hh : l'.healing = l.healing)
    (ht : l'.tasks = l.tasks) (hm : l'.main.idle = false) : Turn l now a l' :=
  .attended a ha hh (fun j => by rw [ht]) (not_unattended_of_main hm)

theorem receive_turn {r : Fin n} {response : Option Response} {mark pause : Time}
    (h : l.receive quorumSize now mark pause r response = some l') :
    Turn l now (.receive r response mark pause) l' := by
  unfold receive at h
  split at h
  case h_1 start waits candidates hm =>
    split_ifs at h
    cases h
    obtain ⟨c, hc⟩ := l.confirmAcquire_eq now (now + mark) r (acquireCandidate start response)
    rw [hc]
    refine .calling nofun rfl rfl ?_
    dsimp only [setMain]
    split <;> rfl
  case h_2 start waits candidates hm =>
    split_ifs at h
    cases h
    obtain ⟨c, hc⟩ := l.confirmRenew_eq now (now + mark) r (renewCandidate start response)
    rw [hc]
    refine .calling nofun rfl rfl ?_
    dsimp only [setMain]
    split <;> rfl
  case h_3 => cases h

theorem submit_turn {requestID : Nat} {accepted : Bool}
    (h : l.submit requestID accepted = some l') : Turn l now (.submit requestID accepted) l' := by
  unfold submit at h
  split at h
  case h_2 start ttlMS r todo waits hm =>
    cases h
    obtain ⟨c, hc⟩ := l.clearConfirmed_eq r
    rw [hc]
    split_ifs
    all_goals exact .calling nofun rfl rfl rfl
  case h_5 => cases h
  all_goals
    cases h
    exact .calling nofun rfl rfl rfl

theorem commit_turn {canceled : Bool} {j : Fin m} (h : l.commit canceled j = some l') :
    Turn l now (.commit canceled j) l' := by
  unfold commit at h
  split at h
  case h_3 => cases h
  all_goals
    split_ifs at h
    · cases h
      exact .calling nofun rfl rfl rfl
    · obtain ⟨hh, ht, hn⟩ := spawn_turn l h rfl rfl rfl
      exact .attended _ nofun hh ht hn

/-- **What a step does to healing.** -/
theorem move_turn (hi : l.Inv) (h : l.move quorumSize now a = some l') : Turn l now a l' := by
  cases a with
  | submit requestID accepted => exact submit_turn h
  | receive r response mark pause => exact receive_turn h
  | commit canceled j => exact commit_turn h
  | task j b => exact .task j b (taskStep_turn h)
  | check canceled =>
    simp only [move, check] at h
    split at h
    case h_3 => cases h
    all_goals
      cases h
      refine .calling (by rintro _ _ ⟨⟩) rfl rfl ?_
      dsimp only [setMain]
      split_ifs <;> rfl
  | giveUp =>
    simp only [move, giveUp] at h
    split at h
    case h_3 => cases h
    all_goals
      cases h
      exact .calling (by rintro _ _ ⟨⟩) rfl rfl rfl
  | fail j =>
    simp only [move, fail] at h
    split at h
    case h_3 => cases h
    all_goals
      obtain ⟨hh, ht, hn⟩ := spawn_turn l h rfl rfl rfl
      exact .attended _ (by rintro _ _ ⟨⟩) hh ht hn
  | renew ttlMS =>
    simp only [move, renew] at h
    split at h
    · rename_i o hm
      split_ifs at h
      · cases h
        exact .calling (by rintro _ _ ⟨⟩) rfl rfl rfl
      · cases h
        exact .still _ (by rintro _ _ ⟨⟩) o _ hm
    · cases h
  | release =>
    simp only [move, release] at h
    split at h
    · rename_i o hm
      split_ifs at h
      · cases h
        exact .ended _ (by rintro _ _ ⟨⟩) rfl rfl rfl
      · cases h
        exact .still _ (by rintro _ _ ⟨⟩) o _ hm
    · cases h
  | wait =>
    simp only [move, wait] at h
    split at h
    · split_ifs at h
      cases h
      exact .calling (by rintro _ _ ⟨⟩) rfl rfl rfl
    · cases h
  | done =>
    simp only [move, done] at h
    split at h
    · rename_i hm
      cases h
      have hstage := hi.stage
      unfold Stage at hstage
      rw [hm] at hstage
      exact .ended _ (by rintro _ _ ⟨⟩) rfl rfl hstage.1
    · cases h

/-! ## One healer -/

/-- What holds of healing at the clock reading `now`. -/
structure Healed (l : Lease n m) (now : Time) : Prop where
  unique : ∀ i j, (l.tasks i).healer = true → (l.tasks j).healer = true → i = j
  flag : l.healing = true ↔ ∃ j, (l.tasks j).healer = true
  /-- Whoever was the last at work on the lease has left it without need of healing. -/
  missed : l.Unattended → l.healing = false → ∀ later, now ≤ later → ¬ l.HealingNeeded later

theorem healed_init (key requestedTTLMS : Nat) (t₀ now : Time) :
    (init key requestedTTLMS t₀ : Lease n m).Healed now where
  unique _ _ := nofun
  flag := ⟨nofun, fun ⟨_, h⟩ => by cases h⟩
  missed h := nomatch h.1

/-- Healing that is not needed now is not needed later, if nothing else changes. -/
theorem not_needed_later {later : Time} (h : ¬ l.HealingNeeded now) (hle : now ≤ later) :
    ¬ l.HealingNeeded later :=
  fun hneeded => h ⟨hneeded.1, lt_of_le_of_lt hle hneeded.2.1, hneeded.2.2⟩

theorem Healed.tick (h : l.Healed now) {later : Time} (hle : now ≤ later) : l.Healed later where
  unique := h.unique
  flag := h.flag
  missed hun hoff t ht := h.missed hun hoff t (hle.trans ht)

/-- `unique` and `flag` depend on which slots have a healer only. -/
theorem Healed.same (h : l.Healed now) (hh : l'.healing = l.healing)
    (ht : ∀ j, (l'.tasks j).healer = (l.tasks j).healer)
    (hmissed : l'.Unattended → l'.healing = false → ∀ later, now ≤ later →
      ¬ l'.HealingNeeded later) : l'.Healed now where
  unique i j hi hj := h.unique i j (ht i ▸ hi) (ht j ▸ hj)
  flag := by
    rw [hh, h.flag]
    exact exists_congr fun j => by rw [ht]
  missed := hmissed

theorem tasks_setTask (j : Fin m) (task : Task n) : (l.setTask j task).tasks j = task :=
  Function.update_self _ _ _

/-- One slot changes. -/
theorem healer_setTask {j : Fin m} {task : Task n} (i : Fin m) :
    ((l.setTask j task).tasks i).healer = if i = j then task.healer else (l.tasks i).healer := by
  show (Function.update l.tasks j task i).healer = _
  by_cases hi : i = j
  · subst hi
    rw [Function.update_self, if_pos rfl]
  · rw [Function.update_of_ne hi, if_neg hi]

theorem not_healer_of_collector {task : Task n} (h : task.collector = true) :
    task.healer = false := by
  cases task <;> first | rfl | cases h

/-- The step of a goroutine that is no healer and does not become one. -/
theorem Healed.bystander (h : l.Healed now) {j : Fin m} {confirmedUntil : Fin n → Time}
    {task : Task n} (hold : (l.tasks j).healer = false) (hnew : task.healer = false)
    (hmissed : ({ l with confirmedUntil }.setTask j task).Unattended → l.healing = false →
      ∀ later, now ≤ later →
        ¬ ({ l with confirmedUntil }.setTask j task : Lease n m).HealingNeeded later) :
    ({ l with confirmedUntil }.setTask j task : Lease n m).Healed now := by
  refine h.same rfl (fun i => ?_) hmissed
  rw [healer_setTask]
  split_ifs with hi
  · rw [hi, hold, hnew]
  · rfl

/-- The step of the healer that goes on. -/
theorem Healed.going (h : l.Healed now) {j : Fin m} (hold : (l.tasks j).healer = true)
    (hh : l'.healing = true) (ht : ∀ i, (l'.tasks i).healer =
      if i = j then true else (l.tasks i).healer) : l'.Healed now := by
  have hon : l.healing = true := h.flag.mpr ⟨j, hold⟩
  refine h.same (hh.trans hon.symm) (fun i => ?_) (fun _ hoff => ?_)
  · rw [ht]
    split_ifs with hi
    · rw [hi, hold]
    · rfl
  · rw [hh] at hoff
    cases hoff

theorem Healed.task {j : Fin m} (h : l.Healed now) (hs : TaskTurn l now j l') :
    l'.Healed now := by
  cases hs with
  | collected confirmedUntil task hold hnew =>
    exact h.bystander (not_healer_of_collector hold) (not_healer_of_collector hnew)
      fun hun => absurd hun (not_unattended_of_collector hnew)
  | dismissed hold hno =>
    show ({ l with confirmedUntil := l.confirmedUntil }.setTask j .idle : Lease n m).Healed now
    refine h.bystander (by rw [hold]; rfl) rfl fun _ hoff later hle => ?_
    rcases hno with hon | hno
    · rw [hoff] at hon
      cases hon
    · exact not_needed_later (l := l) hno hle
  | started hold hoff hneeded =>
    have hnone : ∀ i, (l.tasks i).healer ≠ true := by
      intro i hi
      rw [h.flag.mpr ⟨i, hi⟩] at hoff
      cases hoff
    have hslot : ∀ i,
        (({ l with healing := true }.setTask j .healLoop : Lease n m).tasks i).healer = true →
        i = j := by
      intro i hi
      rw [healer_setTask] at hi
      split_ifs at hi with hij
      · exact hij
      · exact absurd hi (hnone i)
    refine ⟨fun i i' hi hi' => (hslot i hi).trans (hslot i' hi').symm, ⟨fun _ => ⟨j, ?_⟩,
      fun _ => rfl⟩, fun _ hoff' => by cases hoff'⟩
    rw [healer_setTask, if_pos rfl]
    rfl
  | healed confirmedUntil healingBatches task hold hne hnew =>
    refine h.going hold (h.flag.mpr ⟨j, hold⟩) fun i => ?_
    rw [healer_setTask, hnew]
  | restarted hold hneeded =>
    refine h.going (by rw [hold]; rfl) rfl fun i => ?_
    rw [healer_setTask]
    rfl
  | finished hold hover =>
    have hj : (l.tasks j).healer = true := by rw [hold]; rfl
    have hnone : ∀ i, (({ l with healing := false }.setTask j .idle : Lease n m).tasks i).healer ≠
        true := by
      intro i hi
      rw [healer_setTask] at hi
      split_ifs at hi with hij
      · cases hi
      · exact hij (h.unique i j hi hj)
    exact ⟨fun i i' hi => absurd hi (hnone i), ⟨nofun, fun ⟨i, hi⟩ => absurd hi (hnone i)⟩,
      fun _ _ later hle => not_needed_later (l := l) hover hle⟩

theorem Healed.step (h : l.Healed now) (hi : l.Inv) (hs : l.step quorumSize now a = some l') :
    l'.Healed now := by
  obtain ⟨l₁, hmove, rfl⟩ := step_cases hs
  suffices h₁ : l₁.Healed now by
    cases l.outgoing a with
    | none => exact h₁
    | some request => exact ⟨h₁.unique, h₁.flag, h₁.missed⟩
  cases move_turn hi hmove with
  | task j b ht => exact h.task ht
  | attended a ha hh ht hn => exact h.same hh ht fun hun => absurd hun hn
  | still a ha o o' hm =>
    refine h.same rfl (fun _ => rfl) fun hun hoff later hle => ?_
    exact h.missed ⟨by rw [hm]; rfl, hun.2⟩ hoff later hle
  | ended a ha hh ht hl =>
    refine h.same hh (fun j => by rw [ht]) fun _ _ later _ hneeded => ?_
    rw [hneeded.1] at hl
    cases hl

end Lease

/-! ## The lease and the client -/

/-- A lease, the clock of its client, and whether the client is closed. -/
structure Healing (n m : Nat) where
  lease : Lease n m
  clock : Time
  closed : Bool
  told : Bool
  runs : Nat

/-- A step of the lease, or something that happens to it. -/
inductive HealingAct (n m : Nat) where
  | tick (d : Time)
  /-- `Client.Close` cancels the client's context. -/
  | close
  | lease (a : LeaseAct n m)

namespace Healing

/-- A run of `backgroundHeal` starts. -/
def starts (l l' : Lease n m) : LeaseAct n m → Bool
  | .task j _ => (l.tasks j = .starting ∨ l.tasks j = .healFinish) ∧ l'.tasks j = .healLoop
  | _ => false

/-- `waitForHealingRetry` returns false. -/
def stops (l : Lease n m) : LeaseAct n m → Bool
  | .task j (.go false) => l.tasks j = .healWait
  | _ => false

/-- `Acquire` is about to be called. -/
def init (key requestedTTLMS : Nat) (t₀ : Time) : Healing n m :=
  ⟨.init key requestedTTLMS t₀, t₀, false, false, 0⟩

/-- One step; `waitForHealingRetry` returns false only if the lease is released or the client is
closed. -/
def step (quorumSize : Nat) (s : Healing n m) : HealingAct n m → Option (Healing n m)
  | .tick d => some { s with clock := s.clock + d }
  | .close => some { s with closed := true }
  | .lease a =>
    if stops s.lease a = true → s.lease.releaseDone = true ∨ s.closed = true then
      (s.lease.step quorumSize s.clock a).map fun l =>
        { s with
          lease := l
          told := s.told || stops s.lease a
          runs := if starts s.lease l a then s.runs + 1 else s.runs }
    else none

variable {s s' : Healing n m} {quorumSize : Nat}

/-- What holds in every run. -/
structure Inv (s : Healing n m) : Prop where
  lease : s.lease.Inv
  healed : s.lease.Healed s.clock

/-- A step of the lease. -/
theorem step_lease {a : LeaseAct n m} (hs : step quorumSize s (.lease a) = some s') :
    s.lease.step quorumSize s.clock a = some s'.lease ∧ s'.clock = s.clock ∧
      s'.runs = if starts s.lease s'.lease a then s.runs + 1 else s.runs := by
  simp only [step] at hs
  split_ifs at hs
  obtain ⟨l, hl, rfl⟩ := Option.map_eq_some_iff.mp hs
  exact ⟨hl, rfl, rfl⟩

theorem Inv.after_step (h : s.Inv) {a : HealingAct n m} (hs : step quorumSize s a = some s') :
    s'.Inv := by
  cases a with
  | tick d =>
    cases hs
    exact ⟨h.lease, h.healed.tick (Nat.le_add_right _ _)⟩
  | close =>
    cases hs
    exact ⟨h.lease, h.healed⟩
  | lease a =>
    obtain ⟨hl, hclock, -⟩ := step_lease hs
    refine ⟨Lease.step_inv h.lease hl, ?_⟩
    rw [hclock]
    exact h.healed.step h.lease hl

theorem inv_of_exec {key requestedTTLMS : Nat} {t₀ : Time} {acts : List (HealingAct n m)}
    (h : Trans.exec (step quorumSize) (init key requestedTTLMS t₀) acts = some s) : s.Inv :=
  Trans.exec_invariant (fun hi hs => Inv.after_step hi hs)
    ⟨Lease.inv_init _ _ _, Lease.healed_init _ _ _ _⟩ h

/-- **One healer, and no missed healing.** In every run: at most one `backgroundHeal` is started or
running, `healing` is set exactly while there is one, and there is one whenever no public call and
no collector is in progress and the lease is active, valid, and for longer than some replica has
confirmed. -/
theorem one_healer (quorumSize key requestedTTLMS : Nat) (t₀ : Time)
    (acts : List (HealingAct n m)) {s : Healing n m}
    (h : Trans.exec (step quorumSize) (init key requestedTTLMS t₀) acts = some s) :
    (∀ i j, (s.lease.tasks i).healer = true → (s.lease.tasks j).healer = true → i = j) ∧
    (s.lease.healing = true ↔ ∃ j, (s.lease.tasks j).healer = true) ∧
    (s.lease.main.idle = true → (∀ j, (s.lease.tasks j).collector = false) →
      s.lease.lifecycle = .active → s.clock < s.lease.validUntil →
      (∃ r, s.lease.confirmedUntil r < s.lease.validUntil) →
      ∃ j, (s.lease.tasks j).healer = true) := by
  obtain ⟨-, hunique, hflag, hmissed⟩ := inv_of_exec h
  refine ⟨hunique, hflag, fun hmain htasks hactive hlt hr => ?_⟩
  by_contra hnone
  have hoff : s.lease.healing = false := by
    rw [← Bool.not_eq_true, hflag]
    exact hnone
  exact hmissed ⟨hmain, htasks⟩ hoff s.clock (le_refl _) ⟨hactive, hlt, hr⟩

/-- The third replica fails in `Acquire`, and the collector starts to heal it. -/
def healedActs : List (HealingAct 3 1) :=
  [.lease (.submit 1 true), .lease (.submit 2 true), .lease (.submit 3 true),
    .lease (.check false), .lease (.receive 0 (some (acquireResponse 1 LeaseStatus.ok 5000)) 0 0),
    .lease (.receive 1 (some (acquireResponse 2 LeaseStatus.ok 5000)) 0 0), .lease (.commit false 0),
    .tick (1000 * millisecond), .lease (.task 0 (.receive 2 none 0)),
    .lease (.task 0 (.go true)), .lease (.task 0 (.go true))]

theorem one_healer_healedActs :
    ∃ s, Trans.exec (step 2) (init 0 5000 0) healedActs = some s ∧ s.lease.HealingNeeded s.clock ∧
      ∃ j, (s.lease.tasks j).healer = true := by
  obtain ⟨s, he, hneeded, hmain, htasks⟩ : ∃ s, Trans.exec (step 2) (init 0 5000 0) healedActs =
      some s ∧ s.lease.HealingNeeded s.clock ∧ s.lease.main.idle = true ∧
        ∀ j, (s.lease.tasks j).collector = false := by decide +kernel
  exact ⟨s, he, hneeded, (one_healer 2 0 5000 0 _ he).2.2 hmain htasks hneeded.1 hneeded.2.1
    hneeded.2.2⟩

/-! ## The end of healing -/

theorem needed_of_starts {l l' : Lease n m} {now : Time} {a : LeaseAct n m} (hi : l.Inv)
    (hs : l.step quorumSize now a = some l') (hstarts : starts l l' a = true) :
    l.HealingNeeded now := by
  obtain ⟨l₁, hmove, rfl⟩ := Lease.step_cases hs
  cases Lease.move_turn hi hmove with
  | attended a ha | still a ha | ended a ha =>
    cases a <;> first | cases hstarts | exact absurd rfl (ha _ _)
  | task j b ht =>
    obtain ⟨hold', hnew'⟩ := of_decide_eq_true hstarts
    rw [Lease.record_tasks] at hnew'
    cases ht with
    | started hold hoff hneeded => exact hneeded
    | restarted hold hneeded => exact hneeded
    | collected confirmedUntil task hold hnew =>
      rw [Lease.tasks_setTask] at hnew'
      rw [hnew'] at hnew
      cases hnew
    | dismissed hold hno | finished hold hover =>
      rw [Lease.tasks_setTask] at hnew'
      cases hnew'
    | healed confirmedUntil healingBatches task hold hne hnew =>
      rcases hold' with hstarting | hfinish
      · rw [hstarting] at hold
        cases hold
      · exact absurd hfinish hne

theorem released_of_step {l l' : Lease n m} {now : Time} {a : LeaseAct n m}
    (h : l.lifecycle = .released) (hs : l.step quorumSize now a = some l') :
    l'.lifecycle = .released := by
  cases Lease.step_validity hs with
  | same hv hl ho hg | acquired j start waits v ha hm hv hl ho
  | renewed j start waits v ha hm hv hl ho => exact hl.trans h
  | released ho hl hv ho' => exact hl

/-- A step that starts a run. -/
theorem Inv.needed (h : s.Inv) {a : HealingAct n m} (hs : step quorumSize s a = some s')
    (hruns : s'.runs ≠ s.runs) : s.lease.HealingNeeded s.clock := by
  cases a with
  | tick d | close =>
    cases hs
    exact absurd rfl hruns
  | lease a =>
    obtain ⟨hl, -, hcount⟩ := step_lease hs
    refine needed_of_starts h.lease hl ?_
    by_contra hno
    rw [if_neg hno] at hcount
    exact hruns hcount

/-- A released lease stays released, and needs no healing. -/
theorem released_step (h : s.lease.lifecycle = .released) {a : HealingAct n m}
    (hs : step quorumSize s a = some s') : s'.lease.lifecycle = .released := by
  cases a with
  | tick d | close =>
    cases hs
    exact h
  | lease a => exact released_of_step h (step_lease hs).1

/-- `finishBackgroundHealing` starts the next run where healing is needed. -/
theorem Inv.restart (h : s.Inv) {j : Fin m} {ok : Bool} (hj : s.lease.tasks j = .healFinish)
    (hs : step quorumSize s (.lease (.task j (.go ok))) = some s') :
    s'.runs = s.runs + 1 ↔ s.lease.HealingNeeded s.clock := by
  obtain ⟨hl, -, hcount⟩ := step_lease hs
  refine ⟨fun hruns => h.needed hs (by omega), fun hneeded => ?_⟩
  obtain ⟨l₁, hmove, hl₁⟩ := Lease.step_cases hl
  simp only [Lease.move, Lease.taskStep, Lease.taskGo, hj, if_pos hneeded] at hmove
  cases hmove
  rw [hcount, if_pos]
  refine decide_eq_true ⟨Or.inr hj, ?_⟩
  rw [hl₁, Lease.record_tasks]
  exact Lease.tasks_setTask j .healLoop

/-- **A run starts only where healing is needed.** So a released lease is never healed again, whether
its client is closed or not; and whether the client is closed or not, no run is started as long as
healing is not needed, and `finishBackgroundHealing` starts the next one exactly if it is. -/
theorem healing_over (quorumSize key requestedTTLMS : Nat) (t₀ : Time)
    (acts : List (HealingAct n m)) {s : Healing n m}
    (h : Trans.exec (step quorumSize) (init key requestedTTLMS t₀) acts = some s) :
    (∀ a s', step quorumSize s a = some s' → s'.runs ≠ s.runs →
      s.lease.lifecycle = .active ∧ s.clock < s.lease.validUntil ∧
        ∃ r, s.lease.confirmedUntil r < s.lease.validUntil) ∧
    (s.lease.lifecycle = .released → ∀ more s', Trans.exec (step quorumSize) s more = some s' →
      s'.runs = s.runs) ∧
    (∀ more s', Trans.Along (step quorumSize) (fun s₁ _ => ¬ s₁.lease.HealingNeeded s₁.clock)
      s more → Trans.exec (step quorumSize) s more = some s' → s'.runs = s.runs) ∧
    ∀ j ok s', s.lease.tasks j = .healFinish →
      step quorumSize s (.lease (.task j (.go ok))) = some s' →
      (s'.runs = s.runs + 1 ↔ s.lease.HealingNeeded s.clock) := by
  have hinv := inv_of_exec h
  have hidle : ∀ {s₁ s₂ : Healing n m} {a}, s₁.Inv → ¬ s₁.lease.HealingNeeded s₁.clock →
      step quorumSize s₁ a = some s₂ → s₁.runs = s.runs → s₂.runs = s.runs := by
    intro s₁ s₂ a hi hno hs hruns
    by_contra hne
    exact hno (hi.needed hs fun heq => hne (heq.trans hruns))
  refine ⟨fun a s' hs hruns => hinv.needed hs hruns, fun hreleased more s' hmore => ?_,
    fun more s' halong hmore => ?_, fun j ok s' hj hs => hinv.restart hj hs⟩
  · have hend := Trans.exec_invariant (I := fun s₁ : Healing n m =>
        s₁.Inv ∧ s₁.lease.lifecycle = .released ∧ s₁.runs = s.runs)
      (fun {s₁ a s₂} hi hs => by
        obtain ⟨hi, hreleased, hruns⟩ := hi
        refine ⟨hi.after_step hs, released_step hreleased hs, hidle hi (fun hneeded => ?_) hs hruns⟩
        cases hreleased.symm.trans hneeded.1)
      ⟨hinv, hreleased, rfl⟩ hmore
    exact hend.2.2
  · have hend := Trans.exec_along (I := fun s₁ : Healing n m => s₁.Inv ∧ s₁.runs = s.runs)
      (fun hi hno hs => ⟨hi.1.after_step hs, hidle hi.1 hno hs hi.2⟩) ⟨hinv, rfl⟩ halong hmore
    exact hend.2

/-- The lease is released while its healer waits, and the healer is told. -/
def releasedActs : List (HealingAct 3 1) :=
  healedActs ++ [.lease (.task 0 (.go true)), .lease .release, .lease .wait,
    .lease (.submit 4 true), .lease (.submit 5 true), .lease (.submit 6 true), .lease .done,
    .lease (.task 0 (.go false))]

theorem healing_over_releasedActs :
    ∃ s, Trans.exec (step 2) (init 0 5000 0) releasedActs = some s ∧ s.told = true ∧
      s.runs = 1 ∧ ∀ more s', Trans.exec (step 2) s more = some s' → s'.runs = s.runs := by
  obtain ⟨s, he, htold, hruns, hreleased⟩ : ∃ s, Trans.exec (step 2) (init 0 5000 0) releasedActs =
      some s ∧ s.told = true ∧ s.runs = 1 ∧ s.lease.lifecycle = .released := by decide +kernel
  exact ⟨s, he, htold, hruns, (healing_over 2 0 5000 0 _ he).2.1 hreleased⟩

/-- The client is closed while the healer waits. -/
def closedActs : List (HealingAct 3 1) :=
  healedActs ++ [.lease (.task 0 (.go true)), .close, .lease (.task 0 (.go false))]

/-- **A closed client goes on healing.** The run of `backgroundHeal` has ended because the client is
closed, and `finishBackgroundHealing` starts the next one. -/
theorem healing_resumes :
    ∃ s s', Trans.exec (step 2) (init 0 5000 0) closedActs = some s ∧
      s.closed = true ∧ s.told = true ∧
      step 2 s (.lease (.task 0 (.go true))) = some s' ∧ s'.runs = s.runs + 1 := by
  obtain ⟨s, he, hclosed, htold, s', hs, hruns⟩ : ∃ s, Trans.exec (step 2) (init 0 5000 0)
      closedActs = some s ∧ s.closed = true ∧ s.told = true ∧
        ∃ s', step 2 s (.lease (.task 0 (.go true))) = some s' ∧ s'.runs = s.runs + 1 := by
    decide +kernel
  exact ⟨s, s', he, hclosed, htold, hs, hruns⟩

end Healing

end RedLease.Client
