import RedLease.Client.Progress
import RedLease.Client.Validity

/-!
# A failed `Acquire` cleans up

The calls of one client. An `Acquire` that is not canceled at its start draws a sequence number,
takes a `replicaResponses` object from the pool and makes a lease, whose goroutines then go on beside
those of the other leases. `log` records every attempt to enqueue a request, whether or not the send
queue takes it.

An `Acquire` is tied to its requests at both ends: it submits a request in the step in which the
request system accepts or refuses it, and it returns an error only after `responses.release()`. What
it does in between is left open: a response may reach the lease at any time, so there are more runs
here than the client has. The requests of renewals and of healing are not tied to a lease.

* **`Lease.Logged.after_step`**: in each stage of an `Acquire` the attempts of its lease are known
  exactly, first one Acquire for each replica, then, if the call fails, one Release for each.
* **`failed_acquire_cleans_up`**: what a failed `Acquire` leaves behind, in every run.
-/

namespace RedLease.Client

open Lib

variable {n m : Nat}

/-! ## Attempts -/

/-- The replica for which a step tries to enqueue a request, and who tries. -/
def Lease.tries (l : Lease n m) : LeaseAct n m → Option (Fin n × Origin)
  | .submit _ _ =>
    match l.main with
    | .acquireSubmit _ (r :: _) _ => some (r, .acquire)
    | .renewSubmit _ _ (r :: _) _ => some (r, .renew)
    | .cleanup (r :: _) => some (r, .cleanup)
    | .releaseAll (r :: _) => some (r, .release)
    | _ => none
  | .task j (.submit _ _) =>
    match l.tasks j with
    | .healSubmit _ (r :: _) _ => some (r, .heal)
    | _ => none
  | _ => none

/-- The attempts of `Acquire` for all replicas. -/
def acquireAttempts (n : Nat) : List (Fin n × Origin) :=
  (List.finRange n).map fun r => (r, .acquire)

/-- The attempts of the `releaseAll` that follows if it fails. -/
def cleanupAttempts (n : Nat) : List (Fin n × Origin) :=
  (List.finRange n).map fun r => (r, .cleanup)

/-- What an `Acquire` has tried so far. -/
def Main.Tried (log : List (Fin n × Origin)) : Main n → Prop
  | .acquireSubmit _ todo _ => log ++ todo.map (fun r => (r, .acquire)) = acquireAttempts n
  | .acquireCollect _ _ _ | .acquireQuorum _ _ _ => log = acquireAttempts n
  | .cleanup todo =>
    log ++ todo.map (fun r => (r, .cleanup)) = acquireAttempts n ++ cleanupAttempts n
  | .failed => log = acquireAttempts n ++ cleanupAttempts n
  | _ => True

theorem acquireAttempts_kind {x : Fin n × Origin} (hx : x ∈ acquireAttempts n) :
    x.2.kind ≠ .release := by
  obtain ⟨r, -, rfl⟩ := List.mem_map.mp hx
  nofun

namespace Lease

variable {l l' : Lease n m} {quorumSize : Nat} {now : Time} {a : LeaseAct n m}
  {log : List (Fin n × Origin)}

/-- Before `Acquire` returns a lease no goroutine has found anything to do for it. -/
def Resting (l : Lease n m) : Prop :=
  l.main.owned = false → ∀ j, l.tasks j = .idle ∨ l.tasks j = .starting

/-- What is known of a lease and of the requests that it has tried. -/
structure Logged (l : Lease n m) (log : List (Fin n × Origin)) : Prop where
  inv : l.Inv
  early : l.Early
  resting : l.Resting
  tried : l.main.Tried log
  /-- An active lease that `Acquire` has returned has tried no Release. -/
  kept : l.main.owned = true → l.lifecycle = .active → ∀ x ∈ log, x.2.kind ≠ .release

theorem logged_init (key requestedTTLMS : Nat) (now : Time) :
    (init key requestedTTLMS now : Lease n m).Logged [] where
  inv := inv_init key requestedTTLMS now
  early _ := rfl
  resting _ _ := Or.inl rfl
  tried := rfl
  kept := nofun

/-! ## After `Acquire` has returned the lease -/

theorem tried_owned {main : Main n} (h : main.owned = true) : main.Tried log := by
  cases main with
  | acquireSubmit | acquireCollect | acquireQuorum | cleanup | failed => cases h
  | _ => trivial

theorem tries_owned (hi : l.Inv) (howned : l.main.owned = true) (hactive : l.lifecycle = .active)
    {x : Fin n × Origin} (hx : l.tries a = some x) : x.2.kind ≠ .release := by
  unfold tries at hx
  split at hx
  · split at hx
    case h_1 => cases hx; nofun
    case h_2 => cases hx; nofun
    case h_3 hm => rw [hm] at howned; cases howned
    case h_4 hm =>
      have hstage := hi.stage
      unfold Stage at hstage
      rw [hm] at hstage
      cases hactive.symm.trans hstage.1
    case h_5 => cases hx
  · split at hx
    · cases hx; nofun
    · cases hx
  · cases hx

theorem kept_step (h : l.Logged log) (howned : l.main.owned = true)
    (hs : l.step quorumSize now a = some l') (hactive' : l'.lifecycle = .active) :
    ∀ x ∈ log ++ (l.tries a).toList, x.2.kind ≠ .release := by
  have hactive : l.lifecycle = .active := by
    cases step_validity hs with
    | same hv hl ho hg | acquired j start waits v ha hm hv hl ho
    | renewed j start waits v ha hm hv hl ho => exact hl.symm.trans hactive'
    | released ho hl hv ho' => cases hl.symm.trans hactive'
  intro x hx
  rcases List.mem_append.mp hx with hx | hx
  · exact h.kept howned hactive x hx
  · exact tries_owned h.inv howned hactive (Option.mem_toList.mp hx)

/-! ## Before `Acquire` has returned the lease -/

/-- What a step of an `Acquire` comes to. -/
structure AcquireStep (l' : Lease n m) (log : List (Fin n × Origin)) : Prop where
  resting : l'.Resting
  tried : l'.main.Tried log
  kept : l'.main.owned = true → log = acquireAttempts n

/-- `Acquire` goes on without a look at its goroutines. -/
theorem AcquireStep.of_main {main : Main n} (hrest : l.Resting) (howned : l.main.owned = false)
    (hmain : l'.main = main) (htasks : l'.tasks = l.tasks) (howned' : main.owned = false)
    (htried : main.Tried log) : AcquireStep l' log where
  resting _ := htasks ▸ hrest howned
  tried := hmain ▸ htried
  kept h := by
    rw [hmain, howned'] at h
    cases h

theorem AcquireStep.silent (hs : AcquireStep l' log) (ht : l.tries a = none) :
    AcquireStep l' (log ++ (l.tries a).toList) := by
  rwa [ht, Option.toList_none, List.append_nil]

theorem setTask_resting {j : Fin m} {task : Task n} (ht : task = .idle ∨ task = .starting)
    (h : ∀ j, l.tasks j = .idle ∨ l.tasks j = .starting) (j' : Fin m) :
    (l.setTask j task).tasks j' = .idle ∨ (l.setTask j task).tasks j' = .starting := by
  have hupdate : (l.setTask j task).tasks = Function.update l.tasks j task := rfl
  rw [hupdate]
  by_cases hj : j' = j
  · rw [hj, Function.update_self]
    exact ht
  · rw [Function.update_of_ne hj]
    exact h j'

/-- A goroutine finds nothing to do: the validity is not set. -/
theorem task_acquireStep {j : Fin m} {b : TaskAct n} (hearly : l.Early) (hrest : l.Resting)
    (howned : l.main.owned = false) (htried : l.main.Tried log)
    (hs : l.taskStep now j b = some l') :
    AcquireStep l' (log ++ (l.tries (.task j b)).toList) := by
  have hneeded : ¬ l.HealingNeeded now := by
    rintro ⟨-, hlt, -⟩
    rw [hearly howned] at hlt
    exact absurd hlt (Nat.not_lt_zero now)
  have hend : l' = l.setTask j .idle ∧ l.tries (.task j b) = none := by
    rcases hrest howned j with hidle | hstarting
    · cases b <;> simp [taskStep, taskGo, taskSubmit, taskReceive, taskAbandon, hidle] at hs
    · cases b with
      | go ok =>
        simp only [taskStep, taskGo, hstarting, hneeded, not_false_eq_true, or_true, if_true] at hs
        cases hs
        exact ⟨rfl, rfl⟩
      | submit requestID accepted => simp [taskStep, taskSubmit, hstarting] at hs
      | receive r response mark => simp [taskStep, taskReceive, hstarting] at hs
      | abandon => simp [taskStep, taskAbandon, hstarting] at hs
  obtain ⟨rfl, htries⟩ := hend
  refine AcquireStep.silent ⟨fun _ => setTask_resting (Or.inl rfl) (hrest howned), htried, ?_⟩ htries
  exact fun h => absurd (howned.symm.trans h) (by rintro ⟨⟩)

theorem submit_acquireStep {requestID : Nat} {accepted : Bool} (hrest : l.Resting)
    (howned : l.main.owned = false) (htried : l.main.Tried log)
    (hs : l.submit requestID accepted = some l') :
    AcquireStep l' (log ++ (l.tries (.submit requestID accepted)).toList) := by
  unfold submit at hs
  split at hs
  case h_1 start r todo waits hm =>
    cases hs
    rw [hm] at htried
    simp only [tries, hm, Option.toList_some]
    refine .of_main hrest howned rfl rfl rfl ?_
    exact (List.append_assoc ..).trans htried
  case h_2 hm => rw [hm] at howned; cases howned
  case h_3 r todo hm =>
    cases hs
    rw [hm] at htried
    simp only [tries, hm, Option.toList_some]
    refine .of_main hrest howned rfl rfl rfl ?_
    exact (List.append_assoc ..).trans htried
  case h_4 hm => rw [hm] at howned; cases howned
  case h_5 => cases hs

/-- The cleanup begins when all replicas have been tried. -/
theorem tried_cleanup (h : log = acquireAttempts n) :
    (Main.cleanup (List.finRange n) : Main n).Tried log := by
  rw [h]
  rfl

theorem check_acquireStep {canceled : Bool} (hrest : l.Resting) (howned : l.main.owned = false)
    (htried : l.main.Tried log) (hs : l.check canceled = some l') : AcquireStep l' log := by
  unfold check at hs
  split at hs
  case h_1 start waits hm =>
    cases hs
    rw [hm, Main.Tried, List.map_nil, List.append_nil] at htried
    cases canceled with
    | true => exact .of_main hrest howned rfl rfl rfl (tried_cleanup htried)
    | false => exact .of_main hrest howned rfl rfl rfl htried
  case h_2 hm => rw [hm] at howned; cases howned
  case h_3 => cases hs

theorem receive_acquireStep {r : Fin n} {response : Option Response} {mark pause : Time}
    (hrest : l.Resting) (howned : l.main.owned = false) (htried : l.main.Tried log)
    (hs : l.receive quorumSize now mark pause r response = some l') : AcquireStep l' log := by
  unfold receive at hs
  split at hs
  case h_1 start waits candidates hm =>
    split_ifs at hs
    cases hs
    rw [hm] at htried
    obtain ⟨c, hc⟩ := l.confirmAcquire_eq now (now + mark) r (acquireCandidate start response)
    rw [hc]
    split
    · exact .of_main hrest howned rfl rfl rfl htried
    · exact .of_main hrest howned rfl rfl rfl htried
    · exact .of_main hrest howned rfl rfl rfl (tried_cleanup htried)
  case h_2 hm => rw [hm] at howned; cases howned
  case h_3 => cases hs

theorem giveUp_acquireStep (hrest : l.Resting) (howned : l.main.owned = false)
    (htried : l.main.Tried log) (hs : l.giveUp = some l') : AcquireStep l' log := by
  unfold giveUp at hs
  split at hs
  case h_1 start waits candidates hm =>
    cases hs
    rw [hm] at htried
    exact .of_main hrest howned rfl rfl rfl (tried_cleanup htried)
  case h_2 hm => rw [hm] at howned; cases howned
  case h_3 => cases hs

/-- The only step that hands out the lease: nothing but Acquires has been tried. -/
theorem commit_acquireStep {canceled : Bool} {j : Fin m} (hrest : l.Resting)
    (howned : l.main.owned = false) (htried : l.main.Tried log)
    (hs : l.commit canceled j = some l') : AcquireStep l' log := by
  unfold commit at hs
  split at hs
  case h_1 start waits validUntil hm =>
    rw [hm] at htried
    split_ifs at hs
    · cases hs
      exact .of_main hrest howned rfl rfl rfl (tried_cleanup htried)
    · obtain ⟨-, rfl⟩ := spawn_cases hs
      exact ⟨nofun, trivial, fun _ => htried⟩
  case h_2 hm => rw [hm] at howned; cases howned
  case h_3 => cases hs

theorem fail_acquireStep {j : Fin m} (hrest : l.Resting) (howned : l.main.owned = false)
    (htried : l.main.Tried log) (hs : l.fail j = some l') : AcquireStep l' log := by
  unfold fail at hs
  split at hs
  case h_1 hm =>
    rw [hm, Main.Tried, List.map_nil, List.append_nil] at htried
    obtain ⟨-, rfl⟩ := spawn_cases hs
    exact ⟨fun _ => setTask_resting (Or.inr rfl) (hrest howned), htried, nofun⟩
  case h_2 hm => rw [hm] at howned; cases howned
  case h_3 => cases hs

theorem move_acquireStep (hearly : l.Early) (hrest : l.Resting) (howned : l.main.owned = false)
    (htried : l.main.Tried log) (hs : l.move quorumSize now a = some l') :
    AcquireStep l' (log ++ (l.tries a).toList) := by
  have hnone : ∀ {o : Outcome}, l.main ≠ .returned o := fun hm => by rw [hm] at howned; cases howned
  cases a with
  | submit requestID accepted => exact submit_acquireStep hrest howned htried hs
  | task j b => exact task_acquireStep hearly hrest howned htried hs
  | check canceled => exact (check_acquireStep hrest howned htried hs).silent rfl
  | receive r response mark pause => exact (receive_acquireStep hrest howned htried hs).silent rfl
  | giveUp => exact (giveUp_acquireStep hrest howned htried hs).silent rfl
  | commit canceled j => exact (commit_acquireStep hrest howned htried hs).silent rfl
  | fail j => exact (fail_acquireStep hrest howned htried hs).silent rfl
  | renew ttlMS =>
    simp only [move, renew] at hs
    cases hs
  | release =>
    simp only [move, release] at hs
    cases hs
  | wait =>
    simp only [move, wait] at hs
    split at hs
    · rename_i hm
      rw [hm] at howned
      cases howned
    · cases hs
  | done =>
    simp only [move, done] at hs
    split at hs
    · rename_i hm
      rw [hm] at howned
      cases howned
    · cases hs

/-- **Every step of a lease keeps its log in order.** -/
theorem Logged.after_step (h : l.Logged log) (hs : l.step quorumSize now a = some l') :
    l'.Logged (log ++ (l.tries a).toList) := by
  have hinv := step_inv h.inv hs
  have hearly := h.early.step hs
  cases howned : l.main.owned with
  | true =>
    have howned' := owned_step howned hs
    exact ⟨hinv, hearly, fun hnot => absurd (howned'.symm.trans hnot) nofun, tried_owned howned',
      fun _ hactive => kept_step h howned hs hactive⟩
  | false =>
    obtain ⟨l₁, hmove, rfl⟩ := step_cases hs
    have hstep := move_acquireStep h.early h.resting howned h.tried hmove
    refine ⟨hinv, hearly, ?_, by rw [record_main]; exact hstep.tried, fun ho _ x hx => ?_⟩
    · unfold Resting
      rw [record_main, record_tasks]
      exact hstep.resting
    · rw [record_main] at ho
      rw [hstep.kept ho] at hx
      exact acquireAttempts_kind hx

/-- After `Acquire` has returned an error only its goroutine can make a step. -/
theorem failed_step (hm : l.main = .failed) (hs : l.step quorumSize now a = some l') :
    l'.main = .failed := by
  obtain ⟨l₁, hmove, rfl⟩ := step_cases hs
  rw [record_main]
  cases a with
  | task j b => cases taskStep_cases hmove <;> exact hm
  | _ => simp [move, submit, check, receive, giveUp, commit, fail, renew, release, wait, done, hm]
      at hmove

/-- `Acquire` returns an error in one place. -/
theorem failed_of_step (hs : l.step quorumSize now a = some l') (hm' : l'.main = .failed) :
    l.main = .failed ∨ l.main = .cleanup [] ∧ ∃ j, a = .fail j := by
  obtain ⟨l₁, hmove, rfl⟩ := step_cases hs
  rw [record_main] at hm'
  cases a with
  | task j b => cases taskStep_cases hmove <;> exact Or.inl hm'
  | fail j =>
    simp only [move, fail] at hmove
    split at hmove
    · exact Or.inr ⟨‹_›, j, rfl⟩
    · obtain ⟨-, rfl⟩ := spawn_cases hmove
      cases hm'
    · cases hmove
  | submit requestID accepted =>
    simp only [move, submit] at hmove
    split at hmove <;> cases hmove <;> cases hm'
  | check canceled =>
    simp only [move, check] at hmove
    split at hmove <;> cases hmove <;> cases canceled <;> cases hm'
  | receive r response mark pause =>
    simp only [move, receive] at hmove
    split at hmove
    · split_ifs at hmove
      cases hmove
      simp only [setMain] at hm'
      split at hm' <;> cases hm'
    · split_ifs at hmove
      cases hmove
      simp only [setMain] at hm'
      split at hm' <;> cases hm'
    · cases hmove
  | giveUp =>
    simp only [move, giveUp] at hmove
    split at hmove <;> cases hmove <;> cases hm'
  | commit canceled j =>
    simp only [move, commit] at hmove
    split at hmove
    · split_ifs at hmove
      · cases hmove
        cases hm'
      · obtain ⟨-, rfl⟩ := spawn_cases hmove
        cases hm'
    · split_ifs at hmove
      · cases hmove
        cases hm'
      · obtain ⟨-, rfl⟩ := spawn_cases hmove
        cases hm'
    · cases hmove
  | renew ttlMS =>
    simp only [move, renew] at hmove
    split at hmove
    · split_ifs at hmove <;> cases hmove <;> cases hm'
    · cases hmove
  | release =>
    simp only [move, release] at hmove
    split at hmove
    · split_ifs at hmove <;> cases hmove <;> cases hm'
    · cases hmove
  | wait =>
    simp only [move, wait] at hmove
    split at hmove
    · split_ifs at hmove
      cases hmove
      cases hm'
    · cases hmove
  | done =>
    simp only [move, done] at hmove
    split at hmove
    · cases hmove
      cases hm'
    · cases hmove

end Lease

/-! ## The client -/

/-- An attempt to enqueue a request, with the lease ID (of which the client's own part is fixed). -/
structure Attempt (n : Nat) where
  sequence : Nat
  key : Nat
  replica : Fin n
  origin : Origin
  deriving DecidableEq

/-- A request that a lease has tried, as the client logs it. -/
def attempt (sequence key : Nat) (x : Fin n × Origin) : Attempt n := ⟨sequence, key, x.1, x.2⟩

/-- A lease, with the `replicaResponses` object that its `Acquire` took from the pool. -/
structure Call (n m : Nat) where
  lease : Lease n m
  object : Nat
  /-- The number of the operation. -/
  number : Nat

/-- The leases of a client, its replica requests, and all that was tried. -/
structure Calls (n m : Nat) where
  nextSequence : Nat
  /-- By sequence number. -/
  calls : Nat → Option (Call n m)
  requests : State n
  log : List (Attempt n)

/-- A new call, a step of a lease, or a step of the replica requests. -/
inductive ClientAct (n m : Nat) where
  /-- A call of `Acquire`; `canceled` is what its first `acquireCancellationError` reports. -/
  | acquire (canceled : Bool) (key ttlMS object : Nat)
  | lease (sequence : Nat) (a : LeaseAct n m)
  | request (b : Act n)

/-- Nothing has been called yet. -/
def Calls.init (clock : Time) : Calls n m where
  nextSequence := 0
  calls _ := none
  requests := State.init clock
  log := []

/-- The replicas left in a submission loop that is inside `submit`. -/
def Pc.submitting? : Pc n → Option (List (Fin n))
  | .submit (r :: todo) (some _) => some (r :: todo)
  | _ => none

/-- The steps of the request system that are steps of an `Acquire`. -/
def State.tied (s : State n) : Act n → Bool
  | .start _ kind _ => kind = .acquire
  | .own o _ =>
    match s.owners o with
    | some own => own.kind = .acquire && own.pc.submitting?.isSome
    | none => false
  | _ => false

/-- What a step of the lease does to the requests of its `Acquire`: a request is accepted or refused,
and the return of an error comes after `responses.release()`. -/
def Call.requestStep (cfg : Config) (call : Call n m) (s : State n) (a : LeaseAct n m) :
    Option (State n) :=
  match call.lease.main, a with
  | .acquireSubmit _ (r :: todo) _, .submit requestID accepted =>
    match s.owners call.object with
    | some own =>
      if own.number = call.number ∧ own.pc.submitting? = some (r :: todo) ∧
          (accepted = true → requestID = s.nextRequestID + 1) then
        ownerStep cfg s call.object own (if accepted then .go else .refuse)
      else none
    | none => none
  | .cleanup [], .fail _ => if s.number call.object = some call.number then none else some s
  | _, _ => some s

namespace Calls

variable (c : Calls n m)

/-- A new lease with the next sequence number. -/
def acquire (key ttlMS object : Nat) (requests : State n) : Calls n m where
  nextSequence := c.nextSequence + 1
  calls := Function.update c.calls (c.nextSequence + 1)
    (some ⟨.init key ttlMS c.requests.clock, object, c.requests.nextNumber⟩)
  requests
  log := c.log

/-- Call `call` with sequence number `sequence` goes on. -/
def advance (sequence : Nat) (call : Call n m) (tried : Option (Fin n × Origin))
    (requests : State n) : Calls n m where
  nextSequence := c.nextSequence
  calls := Function.update c.calls sequence (some call)
  requests
  log := c.log ++ tried.toList.map (attempt sequence call.lease.key)

/-- One step of the client. -/
def step (cfg : Config) (c : Calls n m) : ClientAct n m → Option (Calls n m)
  | .acquire true _ _ _ => some c
  | .acquire false key ttlMS object =>
    (Client.step cfg c.requests (.start object .acquire fun _ => true)).map
      (c.acquire key ttlMS object)
  | .lease sequence a =>
    (c.calls sequence).bind fun call =>
      (call.lease.step cfg.quorum.size c.requests.clock a).bind fun lease =>
        (call.requestStep cfg c.requests a).map
          (c.advance sequence { call with lease } (call.lease.tries a))
  | .request b =>
    if c.requests.tied b then none
    else (Client.step cfg c.requests b).map fun requests => { c with requests }

/-- The attempts with the lease ID of `sequence`, in their order. -/
def attempts (sequence : Nat) : List (Attempt n) := c.log.filter fun x => x.sequence = sequence

end Calls

/-! ## Requests -/

section Requests

variable {cfg : Config} {s s' : State n} {o k : Nat}

/-- Operations end, and new ones get new numbers. -/
structure Later (s s' : State n) : Prop where
  number : ∀ o k, k < s.nextNumber → s'.number o = some k → s.number o = some k
  nextNumber : s.nextNumber ≤ s'.nextNumber

theorem Later.refl (s : State n) : Later s s := ⟨fun _ _ _ h => h, le_refl _⟩

theorem State.take_nextNumber {own : Owner n} {pc : Pc n} (hs : s.take o own pc = some s') :
    s'.nextNumber = s.nextNumber := by
  unfold State.take at hs
  split at hs
  · cases hs
  · split at hs <;> cases hs <;> rfl

theorem State.handOff_nextNumber {own : Owner n} : (s.handOff o own).nextNumber = s.nextNumber := by
  unfold State.handOff
  split_ifs <;> rfl

/-- Only the start of an operation draws a number. -/
theorem ownerStep_nextNumber {own : Owner n} {choice : Choice}
    (hs : ownerStep cfg s o own choice = some s') : s'.nextNumber = s.nextNumber := by
  unfold ownerStep at hs
  dsimp only at hs
  split at hs
  case h_3 =>
    unfold State.submitForOperation at hs
    split_ifs at hs <;> cases hs <;> rfl
  case h_8 | h_14 => exact State.take_nextNumber hs
  case h_20 =>
    split_ifs at hs
    · exact State.take_nextNumber hs
    · cases hs
      rfl
  case h_21 =>
    cases hs
    unfold State.release
    split_ifs <;> rfl
  case h_22 => cases hs
  all_goals
    repeat' split at hs
    all_goals cases hs
    all_goals first
      | exact State.handOff_nextNumber
      | rfl

theorem later_of_ownerStep {own : Owner n} {choice : Choice} (ho : s.owners o = some own)
    (hs : ownerStep cfg s o own choice = some s') : Later s s' :=
  ⟨fun o' k _ hk => (ownerStep_keeps ho hs).1 o' k hk, (ownerStep_nextNumber hs).ge⟩

theorem State.start_number (own : Owner n) (o' : Nat) :
    (s.start o own).number o' = if o' = o then some own.number else s.number o' := by
  have howners : (s.start o own).owners = Function.update s.owners o (some own) := rfl
  unfold State.number
  rw [howners]
  split_ifs with h
  · rw [h, Function.update_self, Option.map_some]
  · rw [Function.update_of_ne h]

theorem start_cases {kind : Kind} {targets : Fin n → Bool}
    (hs : step cfg s (.start o kind targets) = some s') :
    s' = s.start o ⟨kind, .submit (kind.targets targets) none, 0, s.nextNumber⟩ := by
  simp only [step] at hs
  split at hs
  · cases hs
  · split_ifs at hs
    cases hs
    rfl

theorem later_of_step {b : Act n} (hs : step cfg s b = some s') : Later s s' := by
  cases b with
  | start o kind targets =>
    obtain rfl := start_cases hs
    refine ⟨fun o' k hlt hk => ?_, Nat.le_succ _⟩
    rw [State.start_number] at hk
    split_ifs at hk
    · exact absurd (Option.some.inj hk) (Nat.ne_of_gt hlt)
    · exact hk
  | own o' choice =>
    simp only [step] at hs
    split at hs
    · next own ho => exact later_of_ownerStep ho hs
    · cases hs
  | tick now =>
    simp only [step] at hs
    split_ifs at hs
    cases hs
    exact ⟨fun _ _ _ hk => hk, le_refl _⟩
  | respond r response =>
    cases hs
    exact ⟨fun _ _ _ hk => hk, le_refl _⟩
  | send k =>
    simp only [step] at hs
    split at hs
    · cases hs
    · split_ifs at hs
      cases hs
      exact ⟨fun _ _ _ hk => hk, le_refl _⟩
  | cancel r =>
    cases hs
    exact ⟨fun _ _ _ hk => hk, le_refl _⟩
  | failPending r j =>
    simp only [step] at hs
    split_ifs at hs
    cases hs
    exact ⟨fun _ _ _ hk => hk, le_refl _⟩

end Requests

/-! ## The client keeps its logs -/

/-- An `Acquire` and its requests: its number is used at its own object only, and no longer when it
has returned an error. -/
structure Call.Tied (s : State n) (call : Call n m) : Prop where
  number_lt : call.number < s.nextNumber
  object : ∀ o, s.number o = some call.number → o = call.object
  ended : call.lease.main = .failed → s.number call.object ≠ some call.number

/-- Every lease agrees with the object of its call and with its part of the log. -/
structure Calls.Inv (cfg : Config) (c : Calls n m) : Prop where
  requests : Client.Inv cfg c.requests
  tied : ∀ {sequence call}, c.calls sequence = some call → call.Tied c.requests
  logged : ∀ {sequence call}, c.calls sequence = some call →
    ∃ log, call.lease.Logged log ∧
      c.attempts sequence = log.map (attempt sequence call.lease.key)
  /-- A sequence number that has not been drawn. -/
  fresh : ∀ {sequence}, c.nextSequence < sequence →
    c.calls sequence = none ∧ c.attempts sequence = []

section Steps

variable {cfg : Config} {s s' : State n} {c c' : Calls n m} {call : Call n m}

theorem Call.Tied.later (h : call.Tied s) (hl : Later s s') : call.Tied s' where
  number_lt := h.number_lt.trans_le hl.nextNumber
  object o hk := h.object o (hl.number o _ h.number_lt hk)
  ended hm hk := h.ended hm (hl.number _ _ h.number_lt hk)

/-- What a step of a lease does to its requests. -/
theorem Call.requestStep_cases {a : LeaseAct n m} (hs : call.requestStep cfg s a = some s') :
    s' = s ∨ ∃ own choice, s.owners call.object = some own ∧
      ownerStep cfg s call.object own choice = some s' := by
  unfold requestStep at hs
  split at hs
  · split at hs
    · split_ifs at hs
      all_goals exact Or.inr ⟨_, _, ‹_›, hs⟩
    · cases hs
  · split_ifs at hs
    cases hs
    exact Or.inl rfl
  · cases hs
    exact Or.inl rfl

theorem Call.Tied.advance {a : LeaseAct n m} {lease : Lease n m} {quorumSize : Nat} {now : Time}
    (h : call.Tied s) (hs : call.lease.step quorumSize now a = some lease)
    (hr : call.requestStep cfg s a = some s') (hl : Later s s') :
    Call.Tied s' { call with lease } where
  number_lt := h.number_lt.trans_le hl.nextNumber
  object o hk := h.object o (hl.number o _ h.number_lt hk)
  ended hm hk := by
    rcases Lease.failed_of_step hs hm with hm | ⟨hm, j, rfl⟩
    · exact h.ended hm (hl.number _ _ h.number_lt hk)
    · simp only [requestStep, hm] at hr
      split_ifs at hr with hnum
      cases hr
      exact hnum hk

theorem Calls.attempts_advance (sequence : Nat) (tried : Option (Fin n × Origin)) (s : State n)
    (sequence' : Nat) :
    (c.advance sequence call tried s).attempts sequence' =
      if sequence' = sequence then
        c.attempts sequence ++ tried.toList.map (attempt sequence call.lease.key)
      else c.attempts sequence' := by
  unfold attempts advance
  rw [List.filter_append]
  cases tried with
  | none => split_ifs with h <;> simp [h]
  | some x =>
    split_ifs with h
    · simp [attempt, h]
    · simp [attempt, Ne.symm h]

theorem Calls.Inv.acquired (h : c.Inv cfg) {key ttlMS object : Nat}
    (hs : Client.step cfg c.requests (.start object .acquire fun _ => true) = some s) :
    (c.acquire key ttlMS object s).Inv cfg := by
  have hlater := later_of_step hs
  constructor
  case requests => exact step_inv h.requests hs
  case tied =>
    intro sequence call hcall
    rcases Family.update_eq_some hcall with ⟨-, rfl⟩ | ⟨-, hcall⟩
    · obtain rfl := start_cases hs
      refine ⟨Nat.lt_succ_self _, fun o hk => ?_, nofun⟩
      rcases ite_eq_iff.mp ((State.start_number ..).symm.trans hk) with ⟨ho, -⟩ | ⟨-, hk⟩
      · exact ho
      · exact absurd (h.requests.ledger.number_lt o _ hk) (lt_irrefl _)
    · exact (h.tied hcall).later hlater
  case logged =>
    intro sequence call hcall
    rcases Family.update_eq_some hcall with ⟨rfl, rfl⟩ | ⟨-, hcall⟩
    · exact ⟨[], Lease.logged_init _ _ _, (h.fresh (Nat.lt_succ_self _)).2⟩
    · exact h.logged hcall
  case fresh =>
    intro sequence hlt
    have hlt' : c.nextSequence + 1 < sequence := hlt
    obtain ⟨hnone, hlog⟩ := h.fresh (Nat.lt_of_succ_lt hlt')
    exact ⟨(Function.update_of_ne (Nat.ne_of_gt hlt') ..).trans hnone, hlog⟩

theorem Calls.Inv.advanced (h : c.Inv cfg) {sequence : Nat} {a : LeaseAct n m} {lease : Lease n m}
    (hcall : c.calls sequence = some call)
    (hs : call.lease.step cfg.quorum.size c.requests.clock a = some lease)
    (hr : call.requestStep cfg c.requests a = some s) :
    (c.advance sequence { call with lease } (call.lease.tries a) s).Inv cfg := by
  obtain ⟨hlater, hinv⟩ : Later c.requests s ∧ Client.Inv cfg s := by
    rcases Call.requestStep_cases hr with rfl | ⟨own, choice, ho, hstep⟩
    · exact ⟨.refl _, h.requests⟩
    · exact ⟨later_of_ownerStep ho hstep, ownerStep_inv h.requests ho hstep⟩
  constructor
  case requests => exact hinv
  case tied =>
    intro sequence' call' hcall'
    rcases Family.update_eq_some hcall' with ⟨rfl, rfl⟩ | ⟨-, hcall'⟩
    · exact (h.tied hcall).advance hs hr hlater
    · exact (h.tied hcall').later hlater
  case logged =>
    intro sequence' call' hcall'
    rw [attempts_advance]
    rcases Family.update_eq_some hcall' with ⟨rfl, rfl⟩ | ⟨hne, hcall'⟩
    · obtain ⟨log, hlogged, hlog⟩ := h.logged hcall
      refine ⟨_, hlogged.after_step hs, ?_⟩
      rw [if_pos rfl, hlog, List.map_append, Lease.step_key hs]
    · rw [if_neg hne]
      exact h.logged hcall'
  case fresh =>
    intro sequence' hlt
    obtain ⟨hnone, hlog⟩ := h.fresh hlt
    have hne : sequence' ≠ sequence := by
      rintro rfl
      rw [hcall] at hnone
      cases hnone
    rw [attempts_advance, if_neg hne]
    exact ⟨(Function.update_of_ne hne ..).trans hnone, hlog⟩

/-- **Every step of the client keeps the invariant.** -/
theorem Calls.Inv.after_step {a : ClientAct n m} (h : c.Inv cfg) (hs : c.step cfg a = some c') :
    c'.Inv cfg := by
  cases a with
  | acquire canceled key ttlMS object =>
    cases canceled with
    | true =>
      cases hs
      exact h
    | false =>
      obtain ⟨s, hstart, rfl⟩ := Option.map_eq_some_iff.mp hs
      exact h.acquired hstart
  | lease sequence a =>
    obtain ⟨call, hcall, hs⟩ := Option.bind_eq_some_iff.mp hs
    obtain ⟨lease, hlease, hs⟩ := Option.bind_eq_some_iff.mp hs
    obtain ⟨s, hr, rfl⟩ := Option.map_eq_some_iff.mp hs
    exact h.advanced hcall hlease hr
  | request b =>
    simp only [step] at hs
    split_ifs at hs
    obtain ⟨s, hb, rfl⟩ := Option.map_eq_some_iff.mp hs
    exact ⟨step_inv h.requests hb, fun hcall => (h.tied hcall).later (later_of_step hb), h.logged,
      h.fresh⟩

theorem Calls.inv_init (clock : Time) : (Calls.init clock : Calls n m).Inv cfg where
  requests := Client.inv_init cfg clock
  tied := nofun
  logged := nofun
  fresh _ := ⟨rfl, rfl⟩

/-- The `Acquire` of a lease has returned an error. -/
def Calls.Failed (c : Calls n m) (sequence key number : Nat) : Prop :=
  ∃ call, c.calls sequence = some call ∧ call.lease.key = key ∧ call.number = number ∧
    call.lease.main = .failed

theorem Calls.Failed.after_step {a : ClientAct n m} (h : c.Inv cfg) {sequence key number : Nat}
    (hf : c.Failed sequence key number) (hs : c.step cfg a = some c') :
    c'.Failed sequence key number := by
  obtain ⟨call, hcall, hkey, hnum, hm⟩ := hf
  cases a with
  | acquire canceled key ttlMS object =>
    cases canceled with
    | true =>
      cases hs
      exact ⟨call, hcall, hkey, hnum, hm⟩
    | false =>
      obtain ⟨s, hstart, rfl⟩ := Option.map_eq_some_iff.mp hs
      have hne : sequence ≠ c.nextSequence + 1 := by
        rintro rfl
        rw [(h.fresh (Nat.lt_succ_self _)).1] at hcall
        cases hcall
      exact ⟨call, (Function.update_of_ne hne ..).trans hcall, hkey, hnum, hm⟩
  | lease sequence' a =>
    obtain ⟨call', hcall', hs⟩ := Option.bind_eq_some_iff.mp hs
    obtain ⟨lease, hlease, hs⟩ := Option.bind_eq_some_iff.mp hs
    obtain ⟨s, hr, rfl⟩ := Option.map_eq_some_iff.mp hs
    by_cases heq : sequence = sequence'
    · subst heq
      obtain rfl := Option.some.inj (hcall'.symm.trans hcall)
      exact ⟨_, Function.update_self .., (Lease.step_key hlease).trans hkey, hnum,
        Lease.failed_step hm hlease⟩
    · exact ⟨call, (Function.update_of_ne heq ..).trans hcall, hkey, hnum, hm⟩
  | request b =>
    simp only [step] at hs
    split_ifs at hs
    obtain ⟨s, hb, rfl⟩ := Option.map_eq_some_iff.mp hs
    exact ⟨call, hcall, hkey, hnum, hm⟩

end Steps

/-! ## The result -/

end RedLease.Client
