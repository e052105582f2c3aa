import RedLease.Client.Validity

/-!
# The lease of package `client1of1`

`client1of1/lease.go`: the calls `Acquire`, `Renew` and `Release` of a lease on one server, made one
after the other. There are no background goroutines: a call submits one request, waits for its
response, and decides.

A step is the submission of a request, or the end of `awaitResponse` with the decision that follows
it. Between the last reading of the clock and the return of a call nothing can block, so the decision
and the return are one step. The label of a step has the choices of the environment, as in the model
of package `client`; the errors that go with a refusal are left out.

* `Lease.step_cases` says what a step can do.
* `Lease.Covered.step`: every validity rests on evidence.
-/

namespace RedLease.Client1of1

open Client (Lifecycle Outcome Origin Request isSuccessfulAcquire)

/-- `candidateValidUntil`, this package's own. -/
def candidateValidUntil (operationStart : Time) (ttlMS : Nat) : Time :=
  if ttlMS ≤ safetyMarginMS ∨ maxTTLMS < ttlMS then operationStart
  else operationStart + (ttlMS - safetyMarginMS) * millisecond

/-- Where the call stands. -/
inductive Main where
  /-- `Acquire` is about to submit its request. -/
  | acquireSubmit
  /-- `awaitResponse` of `Acquire`. -/
  | acquireWait (requestID : Nat)
  /-- `Acquire` has failed, and is about to submit a Release. -/
  | cleanup
  /-- `Acquire` has returned an error, and nobody has the lease. -/
  | failed
  /-- No call is in progress. -/
  | returned (outcome : Outcome)
  | renewSubmit (ttlMS : Nat)
  | renewWait (requestID : Nat)
  /-- `Release` is about to submit its request. -/
  | release
  deriving DecidableEq

/-- `clientLease`, with the call on it. -/
structure Lease where
  key : Nat
  /-- The TTL that `Acquire` asks for. -/
  requestedTTLMS : Nat
  now : Time
  lifecycle : Lifecycle
  validUntil : Time
  main : Main
  /-- What was enqueued. -/
  sent : List Origin

/-- The steps of a lease. -/
inductive Act where
  | submit (requestID : Nat) (accepted : Bool)
  /-- `awaitResponse` returns a response, or an error; `canceled` is what `cancellationError` finds
  after a response. -/
  | await (response : Option Response) (canceled : Bool)
  | renew (ttlMS : Nat)
  | release

namespace Lease

/-- The lease that a call of `Acquire` makes. -/
def init (key requestedTTLMS : Nat) (now : Time) : Lease where
  key
  requestedTTLMS
  now
  lifecycle := .active
  validUntil := 0
  main := .acquireSubmit
  sent := []

variable (l : Lease)

/-- The call goes on to `main`. -/
def setMain (main : Main) : Lease := { l with main }

/-- `acceptAcquireResponse`: the lease with its validity, if the response is accepted. -/
def acceptAcquireResponse (now : Time) (canceled : Bool) (response : Response) : Option Lease :=
  if canceled then none
  else if response.operation ≠ ClientOperation.acquire then none
  else if isSuccessfulAcquire response.status then
    let validUntil := candidateValidUntil l.now response.ttlMS
    if now < validUntil then some { l with validUntil } else none
  else none

/-- `acceptRenewResponse`. -/
def acceptRenewResponse (now : Time) (canceled : Bool) (response : Response) : Option Lease :=
  if canceled then none
  else if response.operation ≠ ClientOperation.renew then none
  else if response.status ≠ LeaseStatus.ok then none
  else
    let validUntil := candidateValidUntil l.now response.ttlMS
    if now < validUntil then
      some (if l.validUntil < validUntil then { l with validUntil } else l)
    else none

/-- The call submits its request. -/
def submit (requestID : Nat) (accepted : Bool) : Option Lease :=
  match l.main with
  | .acquireSubmit => some (l.setMain (if accepted then .acquireWait requestID else .cleanup))
  | .cleanup => some (l.setMain .failed)
  | .renewSubmit _ =>
    some (l.setMain (if accepted then .renewWait requestID else .returned .notRenewed))
  | .release => some (l.setMain (.returned .released))
  | _ => none

/-- `awaitResponse` returns, and the call decides. -/
def await (now : Time) (response : Option Response) (canceled : Bool) : Option Lease :=
  match l.main with
  | .acquireWait requestID =>
    if ∀ answer ∈ response, answer.requestID = requestID then
      some (match response.bind (l.acceptAcquireResponse now canceled) with
        | some l' => l'.setMain (.returned .acquired)
        | none => l.setMain .cleanup)
    else none
  | .renewWait requestID =>
    if ∀ answer ∈ response, answer.requestID = requestID then
      some (match response.bind (l.acceptRenewResponse now canceled) with
        | some l' => l'.setMain (.returned .renewed)
        | none => l.setMain (.returned .notRenewed))
    else none
  | _ => none

/-- The start of `Renew`. -/
def renew (now : Time) (ttlMS : Nat) : Option Lease :=
  match l.main with
  | .returned _ =>
    if l.lifecycle = .active then some { l with now, main := .renewSubmit ttlMS }
    else some (l.setMain (.returned .notRenewed))
  | _ => none

/-- The start of `Release`. -/
def release : Option Lease :=
  match l.main with
  | .returned _ =>
    if l.lifecycle = .active then
      some { l with lifecycle := .released, validUntil := 0, main := .release }
    else some (l.setMain (.returned .released))
  | _ => none

/-- What a step enqueues. -/
def outgoing : Act → Option (Request 1)
  | .submit requestID true =>
    match l.main with
    | .acquireSubmit => some ⟨0, requestID, l.requestedTTLMS, .acquire⟩
    | .cleanup => some ⟨0, requestID, 0, .cleanup⟩
    | .renewSubmit ttlMS => some ⟨0, requestID, ttlMS, .renew⟩
    | .release => some ⟨0, requestID, 0, .release⟩
    | _ => none
  | _ => none

/-- What a step does to the fields of the source. -/
def move (now : Time) : Act → Option Lease
  | .submit requestID accepted => l.submit requestID accepted
  | .await response canceled => l.await now response canceled
  | .renew ttlMS => l.renew now ttlMS
  | .release => l.release

/-- One step of a lease, at the clock reading `now`. -/
def step (now : Time) (a : Act) : Option Lease :=
  (l.move now a).map fun l' => { l' with
    sent := l'.sent ++ (l.outgoing a).toList.map Request.origin }

end Lease

/-! ## What a step can do -/

/-- The response that a step receives. -/
def Act.incoming : Act → Option (Fin 1 × Response)
  | .await (some response) _ => some (0, response)
  | _ => none

/-- The request that a call waits for. -/
def Main.waiting : Main → Option Nat
  | .acquireWait requestID | .renewWait requestID => some requestID
  | _ => none

/-- `Acquire` has returned the lease. -/
def Main.owned : Main → Bool
  | .acquireSubmit | .acquireWait _ | .cleanup | .failed => false
  | _ => true

/-- `Acquire` or `Renew` is in progress, or `Acquire` has failed. -/
def Main.calling : Main → Bool
  | .returned _ | .release => false
  | _ => true

/-- `Acquire` has failed. -/
def Main.gaveUp : Main → Bool
  | .cleanup | .failed => true
  | _ => false

namespace Lease

variable {l l' : Lease} {now : Time} {a : Act}

/-- All that a step can do to a lease. -/
inductive Step (l : Lease) (now : Time) : Act → Lease → Prop
  | acquire (requestID : Nat) (hm : l.main = .acquireSubmit) : Step l now (.submit requestID true)
      { l with main := .acquireWait requestID, sent := l.sent ++ [.acquire] }
  | renew (requestID ttlMS : Nat) (hm : l.main = .renewSubmit ttlMS) :
      Step l now (.submit requestID true)
        { l with main := .renewWait requestID, sent := l.sent ++ [.renew] }
  | cleanup (requestID : Nat) (accepted : Bool) (hm : l.main = .cleanup) :
      Step l now (.submit requestID accepted)
        { l with main := .failed, sent := l.sent ++ if accepted then [.cleanup] else [] }
  | release (requestID : Nat) (accepted : Bool) (hm : l.main = .release) :
      Step l now (.submit requestID accepted) { l with
        main := .returned .released
        sent := l.sent ++ if accepted then [.release] else [] }
  | acquired (requestID : Nat) (response : Response) (hm : l.main = .acquireWait requestID)
      (hid : response.requestID = requestID) (hs : Client.Successful response)
      (ho : response.operation = ClientOperation.acquire)
      (hnow : now < candidateValidUntil l.now response.ttlMS) :
      Step l now (.await (some response) false) { l with
        validUntil := candidateValidUntil l.now response.ttlMS
        main := .returned .acquired }
  | renewed (requestID : Nat) (response : Response) (hm : l.main = .renewWait requestID)
      (hid : response.requestID = requestID) (hs : Client.Successful response)
      (ho : response.operation = ClientOperation.renew)
      (hnow : now < candidateValidUntil l.now response.ttlMS) :
      Step l now (.await (some response) false) { l with
        validUntil := max l.validUntil (candidateValidUntil l.now response.ttlMS)
        main := .returned .renewed }
  | notSubmitted (requestID : Nat) (hm : l.main = .acquireSubmit) :
      Step l now (.submit requestID false) { l with main := .cleanup }
  | notAcquired (requestID : Nat) (response : Option Response) (canceled : Bool)
      (hm : l.main = .acquireWait requestID)
      (hr : response.bind (l.acceptAcquireResponse now canceled) = none) :
      Step l now (.await response canceled) { l with main := .cleanup }
  | renewNotSubmitted (requestID ttlMS : Nat) (hm : l.main = .renewSubmit ttlMS) :
      Step l now (.submit requestID false) { l with main := .returned .notRenewed }
  | notRenewed (requestID : Nat) (response : Option Response) (canceled : Bool)
      (hm : l.main = .renewWait requestID)
      (hr : response.bind (l.acceptRenewResponse now canceled) = none) :
      Step l now (.await response canceled) { l with main := .returned .notRenewed }
  | renewRefused (o : Outcome) (ttlMS : Nat) (hm : l.main = .returned o)
      (hreleased : l.lifecycle = .released) :
      Step l now (.renew ttlMS) { l with main := .returned .notRenewed }
  | renewing (o : Outcome) (ttlMS : Nat) (hm : l.main = .returned o) (hactive : l.lifecycle = .active) :
      Step l now (.renew ttlMS) { l with now, main := .renewSubmit ttlMS }
  | releasing (o : Outcome) (hm : l.main = .returned o) (hactive : l.lifecycle = .active) :
      Step l now .release { l with lifecycle := .released, validUntil := 0, main := .release }
  | released (o : Outcome) (hm : l.main = .returned o) (hreleased : l.lifecycle = .released) :
      Step l now .release { l with main := .returned .released }

theorem acceptAcquireResponse_cases {canceled : Bool} {response : Response}
    (h : l.acceptAcquireResponse now canceled response = some l') :
    canceled = false ∧ response.operation = ClientOperation.acquire ∧
      isSuccessfulAcquire response.status = true ∧
      now < candidateValidUntil l.now response.ttlMS ∧
      l' = { l with validUntil := candidateValidUntil l.now response.ttlMS } := by
  unfold acceptAcquireResponse at h
  dsimp only at h
  split_ifs at h with hcanceled hop hstatus hnow
  cases h
  exact ⟨Bool.eq_false_iff.mpr hcanceled, not_not.mp hop, hstatus, hnow, rfl⟩

theorem acceptRenewResponse_cases {canceled : Bool} {response : Response}
    (h : l.acceptRenewResponse now canceled response = some l') :
    canceled = false ∧ response.operation = ClientOperation.renew ∧
      response.status = LeaseStatus.ok ∧ now < candidateValidUntil l.now response.ttlMS ∧
      l' = { l with validUntil := max l.validUntil (candidateValidUntil l.now response.ttlMS) } := by
  unfold acceptRenewResponse at h
  dsimp only at h
  split_ifs at h with hcanceled hop hstatus hnow hlater
  · cases h
    refine ⟨Bool.eq_false_iff.mpr hcanceled, not_not.mp hop, not_not.mp hstatus, hnow, ?_⟩
    rw [max_eq_right hlater.le]
  · cases h
    refine ⟨Bool.eq_false_iff.mpr hcanceled, not_not.mp hop, not_not.mp hstatus, hnow, ?_⟩
    rw [max_eq_left (not_lt.mp hlater)]

/-- A step that enqueues nothing. -/
theorem step_silent (ho : l.outgoing a = none) (hs : l.step now a = some l') :
    l.move now a = some l' := by
  obtain ⟨l₁, hmove, rfl⟩ := Option.map_eq_some_iff.mp hs
  rw [hmove, ho]
  simp

theorem submit_cases {requestID : Nat} {accepted : Bool}
    (hs : l.step now (.submit requestID accepted) = some l') :
    Step l now (.submit requestID accepted) l' := by
  cases accepted with
  | false =>
    have hmove := step_silent rfl hs
    simp only [move, submit] at hmove
    split at hmove
    case h_1 hm => cases hmove; exact .notSubmitted requestID hm
    case h_2 hm =>
      cases hmove
      have hsame : l.setMain .failed =
          { l with main := .failed, sent := l.sent ++ if false then [.cleanup] else [] } := by
        simp [setMain]
      rw [hsame]
      exact .cleanup requestID false hm
    case h_3 ttlMS hm =>
      cases hmove
      exact .renewNotSubmitted requestID ttlMS hm
    case h_4 hm =>
      cases hmove
      have hsame : l.setMain (.returned .released) = { l with
          main := .returned .released
          sent := l.sent ++ if false then [.release] else [] } := by
        simp [setMain]
      rw [hsame]
      exact .release requestID false hm
    case h_5 => cases hmove
  | true =>
    obtain ⟨l₁, hmove, rfl⟩ := Option.map_eq_some_iff.mp hs
    simp only [move, submit] at hmove
    split at hmove
    case h_1 hm =>
      cases hmove
      simp only [outgoing, hm]
      exact .acquire requestID hm
    case h_2 hm =>
      cases hmove
      simp only [outgoing, hm]
      exact .cleanup requestID true hm
    case h_3 ttlMS hm =>
      cases hmove
      simp only [outgoing, hm]
      exact .renew requestID ttlMS hm
    case h_4 hm =>
      cases hmove
      simp only [outgoing, hm]
      exact .release requestID true hm
    case h_5 => cases hmove

theorem await_cases {response : Option Response} {canceled : Bool}
    (hs : l.await now response canceled = some l') : Step l now (.await response canceled) l' := by
  unfold await at hs
  split at hs
  case h_1 requestID hm =>
    split_ifs at hs with hid
    cases hs
    split
    case h_1 l₁ hl₁ =>
      obtain ⟨answer, rfl, haccept⟩ := Option.bind_eq_some_iff.mp hl₁
      obtain ⟨rfl, hop, hstatus, hnow, rfl⟩ := acceptAcquireResponse_cases haccept
      exact .acquired requestID answer hm (hid answer rfl) (Or.inl ⟨hop, hstatus⟩) hop hnow
    case h_2 hnone => exact .notAcquired requestID response canceled hm hnone
  case h_2 requestID hm =>
    split_ifs at hs with hid
    cases hs
    split
    case h_1 l₁ hl₁ =>
      obtain ⟨answer, rfl, haccept⟩ := Option.bind_eq_some_iff.mp hl₁
      obtain ⟨rfl, hop, hstatus, hnow, rfl⟩ := acceptRenewResponse_cases haccept
      exact .renewed requestID answer hm (hid answer rfl) (Or.inr ⟨hop, hstatus⟩) hop hnow
    case h_2 hnone => exact .notRenewed requestID response canceled hm hnone
  case h_3 => cases hs

/-- **What a step does to a lease.** -/
theorem step_cases (hs : l.step now a = some l') : Step l now a l' := by
  cases a with
  | submit requestID accepted => exact submit_cases hs
  | await response canceled => exact await_cases (step_silent rfl hs)
  | renew ttlMS =>
    have hmove := step_silent rfl hs
    simp only [move, renew] at hmove
    split at hmove
    · rename_i o hm
      split_ifs at hmove with hactive
      · cases hmove
        exact .renewing o ttlMS hm hactive
      · cases hmove
        exact .renewRefused o ttlMS hm (Lifecycle.released_of_ne hactive)
    · cases hmove
  | release =>
    have hmove := step_silent rfl hs
    simp only [move, release] at hmove
    split at hmove
    · rename_i o hm
      split_ifs at hmove with hactive
      · cases hmove
        exact .releasing o hm hactive
      · cases hmove
        exact .released o hm (Lifecycle.released_of_ne hactive)
    · cases hmove

theorem step_key (hs : l.step now a = some l') : l'.key = l.key := by
  cases step_cases hs <;> rfl

/-! ## Validity -/

theorem gaveUp_not_owned {main : Main} (h : main.gaveUp = true) : main.owned = false := by
  cases main with
  | cleanup => rfl
  | failed => rfl
  | _ => cases h

/-- The lease is given up for good. -/
def Abandoned (l : Lease) : Prop := l.lifecycle = .released ∨ l.main.gaveUp = true

theorem Abandoned.step (h : l.Abandoned) (hs : l.step now a = some l') : l'.Abandoned := by
  rcases h with hreleased | hgave
  · refine Or.inl ?_
    cases step_cases hs with
    | renewing o ttlMS hm hactive => exact hreleased
    | releasing o hm hactive => rfl
    | _ => exact hreleased
  · refine Or.inr ?_
    cases step_cases hs with
    | cleanup requestID accepted hm => rfl
    | notSubmitted requestID hm => rfl
    | notAcquired requestID response canceled hm hr => rfl
    | _ => simp_all [Main.gaveUp]

/-- What a call computes with is covered by the evidence, and so is the validity of the lease, which
it gets only from the `Acquire` that returns it. -/
structure Covered (e : Client.Evidence 1) (now : Time) (l : Lease) : Prop where
  started : l.now ≤ now
  waiting : ∀ requestID, l.main.waiting = some requestID → e.asked 0 requestID l.now
  valid : 0 < l.validUntil → e.kept 0 l.validUntil
  early : l.main.owned = false → l.validUntil = 0
  released : l.main = .release → l.lifecycle = .released
  active : l.main.calling = true → l.lifecycle = .active

theorem covered_init (e : Client.Evidence 1) (key requestedTTLMS : Nat) (now : Time) :
    (init key requestedTTLMS now).Covered e now where
  started := le_refl _
  waiting _ := nofun
  valid h := absurd h (Nat.lt_irrefl 0)
  early _ := rfl
  released := nofun
  active _ := rfl

theorem Covered.mono {e e' : Client.Evidence 1} {now' : Time} (hle : e.Le e') (hnow : now ≤ now')
    (h : l.Covered e now) : l.Covered e' now' where
  started := h.started.trans hnow
  waiting id hid := hle.asked (h.waiting id hid)
  valid hpos := hle.kept (h.valid hpos)
  early := h.early
  released := h.released
  active := h.active

/-- An abandoned lease is not valid. -/
theorem Abandoned.not_valid {e : Client.Evidence 1} (h : l.Abandoned) (hc : l.Covered e now) :
    ¬ (l.lifecycle = .active ∧ now < l.validUntil) := by
  rintro ⟨hactive, hlt⟩
  rcases h with hreleased | hgave
  · rw [hactive] at hreleased
    cases hreleased
  · rw [hc.early (gaveUp_not_owned hgave)] at hlt
    exact absurd hlt (Nat.not_lt_zero now)

/-- A Release is enqueued only for a lease that is given up. -/
theorem abandoned_of_release {e : Client.Evidence 1} (hc : l.Covered e now) {request : Request 1}
    (h : l.outgoing a = some request) (hkind : request.origin.kind = .release) : l.Abandoned := by
  unfold outgoing at h
  split at h
  · split at h
    case h_1 => cases h; cases hkind
    case h_2 hm => exact Or.inr (by rw [hm]; rfl)
    case h_3 => cases h; cases hkind
    case h_4 hm => exact Or.inl (hc.released hm)
    case h_5 => cases h
  · cases h

/-- **Every step carries the evidence on.** -/
theorem Covered.step {e : Client.Evidence 1} (h : l.Covered e now)
    (hasked : ∀ request start, l.outgoing a = some request → start ≤ now →
      e.asked request.replica request.requestID start)
    (hkept : ∀ r answer start, a.incoming = some (r, answer) → e.asked r answer.requestID start →
      Client.Successful answer → e.kept r (Client.candidateValidUntil start answer.ttlMS))
    (hs : l.step now a = some l') : l'.Covered e now := by
  cases step_cases hs with
  | acquire requestID hm =>
    refine ⟨h.started, ?_, h.valid, fun _ => h.early (by rw [hm]; rfl), nofun,
      fun _ => h.active (by rw [hm]; rfl)⟩
    rintro id ⟨⟩
    exact hasked ⟨0, requestID, l.requestedTTLMS, .acquire⟩ l.now (by simp [outgoing, hm]) h.started
  | renew requestID ttlMS hm =>
    refine ⟨h.started, ?_, h.valid, nofun, nofun, fun _ => h.active (by rw [hm]; rfl)⟩
    rintro id ⟨⟩
    exact hasked ⟨0, requestID, ttlMS, .renew⟩ l.now (by simp [outgoing, hm]) h.started
  | cleanup requestID accepted hm =>
    exact ⟨h.started, nofun, h.valid, fun _ => h.early (by rw [hm]; rfl), nofun,
      fun _ => h.active (by rw [hm]; rfl)⟩
  | release requestID accepted hm => exact ⟨h.started, nofun, h.valid, nofun, nofun, nofun⟩
  | acquired requestID response hm hid hsucc ho hnow =>
    refine ⟨h.started, nofun, fun _ => ?_, nofun, nofun, nofun⟩
    refine hkept 0 response l.now rfl ?_ hsucc
    exact h.waiting _ (by rw [hm, hid]; rfl)
  | renewed requestID response hm hid hsucc ho hnow =>
    refine ⟨h.started, nofun, fun hpos => ?_, nofun, nofun, nofun⟩
    have hnew : e.kept 0 (candidateValidUntil l.now response.ttlMS) :=
      hkept 0 response l.now rfl (h.waiting _ (by rw [hm, hid]; rfl)) hsucc
    dsimp only at hpos ⊢
    rcases max_cases l.validUntil (candidateValidUntil l.now response.ttlMS) with
      ⟨hmax, -⟩ | ⟨hmax, -⟩
    · rw [hmax] at hpos ⊢
      exact h.valid hpos
    · rw [hmax]
      exact hnew
  | notSubmitted requestID hm | notAcquired requestID response canceled hm hr =>
    exact ⟨h.started, nofun, h.valid, fun _ => h.early (by rw [hm]; rfl), nofun,
      fun _ => h.active (by rw [hm]; rfl)⟩
  | renewNotSubmitted requestID ttlMS hm | notRenewed requestID response canceled hm hr
  | renewRefused o ttlMS hm hreleased =>
    exact ⟨h.started, nofun, h.valid, nofun, nofun, nofun⟩
  | renewing o ttlMS hm hactive =>
    exact ⟨le_refl _, nofun, h.valid, nofun, nofun, fun _ => hactive⟩
  | releasing o hm hactive =>
    exact ⟨h.started, nofun, fun hpos => absurd hpos (Nat.lt_irrefl 0), nofun, fun _ => rfl, nofun⟩
  | released o hm hreleased => exact ⟨h.started, nofun, h.valid, nofun, nofun, nofun⟩

end Lease

end RedLease.Client1of1
