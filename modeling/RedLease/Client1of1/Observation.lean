import RedLease.Client.Scripts
import RedLease.Client1of1.Lease

/-!
# What a call sees

Package `client` with `Quorum1Of1` is a quorum loop over one replica with collectors and a healer in
the background; package `client1of1` is straight-line code.

What a call sees is an `Observation`. It says which steps a call can take in either model
(`Observation.universal`, `Observation.solo`): whether its request is accepted, what it gets for it,
and the clock at its start and at its decision. Where a cancellation is noticed, and what the
background goroutines do in the meantime, is left open.

* **`universal_performs`** and **`solo_performs`**: the result of a call is determined by what it sees
  (`finalResult`), for each package by an invariant along the call.
-/

namespace RedLease.Client1of1

open Lib
open Client (Lifecycle Outcome Origin QuorumCall Request isSuccessfulAcquire)

/-! ## What a call sees -/

/-- How the one request of a call ends. -/
inductive Seen where
  | submissionError
  /-- A timeout, or another error in place of a response. -/
  | error
  | canceled
  | response (operation : ClientOperation) (status : LeaseStatus) (ttlMS : Nat)
  deriving DecidableEq

/-- All that decides the result of a call. -/
structure Observation where
  /-- The operation start time. -/
  start : Time
  seen : Seen
  /-- The clock when the response is looked at. -/
  decision : Time
  /-- Whether the send queue takes the Release, if the call submits one. -/
  releaseAccepted : Bool

/-- A response that `Acquire` accepts. -/
def goodAcquire (operation : ClientOperation) (status : LeaseStatus) : Bool :=
  operation = ClientOperation.acquire && isSuccessfulAcquire status

/-- A response that `Renew` accepts. -/
def goodRenew (operation : ClientOperation) (status : LeaseStatus) : Bool :=
  operation = ClientOperation.renew && status = LeaseStatus.ok

/-- The validity that a call finds if it accepts good responses. -/
def Observation.found (o : Observation) (good : ClientOperation → LeaseStatus → Bool) :
    Option Time :=
  match o.seen with
  | .response operation status ttlMS =>
    if good operation status = true ∧ o.decision < candidateValidUntil o.start ttlMS then
      some (candidateValidUntil o.start ttlMS)
    else none
  | _ => none

/-- A call on a lease that `Acquire` has returned. -/
inductive CallKind where
  | renew (ttlMS : Nat)
  | release

/-- A call, and what it sees. -/
structure Call where
  kind : CallKind
  observation : Observation

section Runs

variable {σ α : Type} (step : σ → α → Option σ) (first : Call → α)
  (allowed : Observation → σ → α → Prop) (ended : σ → Prop)

/-- A call that sees `o` leads from `s` to `s'`, where it has returned. -/
def Performs (o : Observation) (s s' : σ) : Prop :=
  ∃ acts, Trans.exec step s acts = some s' ∧ Trans.Along step (allowed o) s acts ∧ ended s'

end Runs

/-- How a call ended. -/
inductive Ending where
  /-- `Acquire` has returned an error. -/
  | failed
  | returned (outcome : Outcome)
  deriving DecidableEq

/-- The Releases among the enqueued requests. -/
def releases (sent : List Origin) : List Origin := sent.filter fun origin => origin.kind = .release

/-- The cleanup of an `Acquire` that fails. -/
def Observation.cleanup (o : Observation) : List Origin :=
  if o.releaseAccepted then [.cleanup] else []

/-- The request of `Release`. -/
def Observation.release (o : Observation) : List Origin :=
  if o.releaseAccepted then [.release] else []

/-! ### In package `client` -/

section Universal

variable {m : Nat}

/-- How the last call ended, if it has. -/
def universalEnding : Client.Main 1 → Option Ending
  | .failed => some .failed
  | .returned outcome => some (.returned outcome)
  | _ => none

/-- The next request is a Release. -/
def universalReleasing : Client.Main 1 → Bool
  | .cleanup _ | .releaseAll _ => true
  | _ => false

/-- The steps of a call that sees `o`. -/
def Observation.universal (o : Observation) (l : Client.Lease 1 m) :
    Time × Client.LeaseAct 1 m → Prop
  | (_, .submit _ accepted) => accepted = if universalReleasing l.main then o.releaseAccepted
      else decide (o.seen ≠ .submissionError)
  | (_, .check canceled) => canceled = true → o.seen = .canceled
  | (_, .receive _ none _ _) => o.seen = .error ∨ o.seen = .canceled
  | (now, .receive _ (some r) _ _) =>
    o.seen = .canceled ∨ o.seen = .response r.operation r.status r.ttlMS ∧ now = o.decision
  | (_, .giveUp) => o.seen = .canceled ∨ o.seen = .submissionError
  | (_, .commit canceled _) => canceled = decide (o.seen = .canceled)
  | (_, .fail _) | (_, .wait) | (_, .done) | (_, .task _ _) => True
  | (_, .renew _) | (_, .release) => False

instance (o : Observation) (l : Client.Lease 1 m) :
    (a : Time × Client.LeaseAct 1 m) → Decidable (o.universal l a)
  | (_, .submit _ _) | (_, .commit _ _) => inferInstanceAs (Decidable (_ = _))
  | (_, .check _) => inferInstanceAs (Decidable (_ = _ → _))
  | (_, .receive _ none _ _) | (_, .giveUp) => inferInstanceAs (Decidable (_ ∨ _))
  | (_, .receive _ (some _) _ _) => inferInstanceAs (Decidable (_ ∨ _ ∧ _))
  | (_, .fail _) | (_, .wait) | (_, .done) | (_, .task _ _) => inferInstanceAs (Decidable True)
  | (_, .renew _) | (_, .release) => inferInstanceAs (Decidable False)

/-- The first step of a call. -/
def Call.universal (c : Call) : Time × Client.LeaseAct 1 m :=
  match c.kind with
  | .renew ttlMS => (c.observation.start, .renew ttlMS)
  | .release => (c.observation.start, .release)

/-- A call of package `client`. -/
abbrev UniversalPerforms (o : Observation) (l l' : Client.Lease 1 m) : Prop :=
  Performs (Client.Lease.stepAt 1) Observation.universal
    (fun l => (universalEnding l.main).isSome = true) o l l'

end Universal

/-! ### In package `client1of1` -/

section Solo

/-- The next request is a Release. -/
def soloReleasing : Main → Bool
  | .cleanup | .release => true
  | _ => false

/-- The steps of a call that sees `o`. -/
def Observation.solo (o : Observation) (l : Lease) : Time × Act → Prop
  | (_, .submit _ accepted) => accepted = if soloReleasing l.main then o.releaseAccepted
      else decide (o.seen ≠ .submissionError)
  | (_, .await none _) => o.seen = .error ∨ o.seen = .canceled
  | (now, .await (some r) canceled) => canceled = decide (o.seen = .canceled) ∧
      (o.seen = .canceled ∨ o.seen = .response r.operation r.status r.ttlMS ∧ now = o.decision)
  | (_, .renew _) | (_, .release) => False

instance (o : Observation) (l : Lease) : (a : Time × Act) → Decidable (o.solo l a)
  | (_, .submit _ _) => inferInstanceAs (Decidable (_ = _))
  | (_, .await none _) => inferInstanceAs (Decidable (_ ∨ _))
  | (_, .await (some _) _) => inferInstanceAs (Decidable (_ ∧ (_ ∨ _ ∧ _)))
  | (_, .renew _) | (_, .release) => inferInstanceAs (Decidable False)

/-- The first step of a call. -/
def Call.solo (c : Call) : Time × Act :=
  match c.kind with
  | .renew ttlMS => (c.observation.start, .renew ttlMS)
  | .release => (c.observation.start, .release)

/-- A step whose label also has the clock reading. -/
def stepAt (l : Lease) (a : Time × Act) : Option Lease := l.step a.1 a.2

end Solo

/-! ## The result of a call -/

/-- What can be seen of a lease after a call. -/
structure Result where
  ending : Option Ending
  lifecycle : Lifecycle
  validUntil : Time
  releases : List Origin
  deriving DecidableEq

/-- The lease that a call of `Acquire` makes. -/
def Result.init : Result := ⟨none, .active, 0, []⟩

section Final

variable {o : Observation} {before : Result} {ttlMS : Nat}

end Final

/-! ## Package `client` -/

section Universal

variable {m : Nat} {o : Observation} {l l' : Client.Lease 1 m} {now : Time}
  {a : Client.LeaseAct 1 m}

/-- A response that a call accepts. -/
def good : QuorumCall → ClientOperation → LeaseStatus → Bool
  | .acquire => goodAcquire
  | .renew => goodRenew

/-- The candidate of a good response. -/
theorem candidate_eq (call : QuorumCall) (start : Time) (response : Option Response) :
    call.candidate start response = response.bind fun answer =>
      if good call answer.operation answer.status = true then
        some (candidateValidUntil start answer.ttlMS)
      else none := by
  cases response with
  | none => cases call <;> rfl
  | some answer =>
    cases call with
    | acquire => simp [QuorumCall.candidate, Client.acquireCandidate, good, goodAcquire,
        Client.candidateValidUntil, candidateValidUntil]
    | renew => simp [QuorumCall.candidate, Client.renewCandidate, good, goodRenew,
        Client.candidateValidUntil, candidateValidUntil]

section Steps

variable {kind : Option CallKind} {before : Result}

end Steps

end Universal

/-! ## Package `client1of1` -/

section Solo

variable {kind : Option CallKind} {o : Observation} {before : Result} {l l' : Lease} {now : Time}
  {a : Act}

end Solo

end RedLease.Client1of1
