import RedLease.Client.Release

/-!
# What the validity of a lease rests on

A lease is valid up to `validUntil` because a quorum of replicas promised to keep it that long. What
the replicas promised is not in the lease: `Evidence` stands for it, and the lemmas here say how a
lease carries it from a response through the candidates and `bestAcquireQuorum` to `validUntil`.

* `Lease.Covered`: what a lease computes with is covered by evidence.
* **`Lease.step_covered`**: every step keeps it, provided that requests are sent when they are
  enqueued and that a successful response is evidence for its candidate.
* **`Lease.step_validity`**: what a step can do to the validity of a lease.
* `Lease.Abandoned`: the lease is given up for good, and Release requests may be on their way.
-/

namespace RedLease.Client

variable {n m : Nat}

/-! ## Evidence -/

/-- What is known about the requests of a lease and about its replicas. -/
structure Evidence (n : Nat) where
  /-- The request was sent to the replica when the client's clock had reached `start`. -/
  asked : Fin n → Nat → Time → Prop
  /-- The replica keeps the lease until the client's clock reaches the given time. -/
  kept : Fin n → Time → Prop
  kept_of_le : ∀ {r c c'}, c' ≤ c → kept r c → kept r c'

/-- A quorum of replicas keeps the lease. -/
def Evidence.QuorumKept (e : Evidence n) (quorumSize : Nat) (validUntil : Time) : Prop :=
  ∃ A : Finset (Fin n), quorumSize ≤ A.card ∧ ∀ r ∈ A, e.kept r validUntil

/-- The requests that are waited for were sent at `start` or later. -/
def Evidence.Asked (e : Evidence n) (start : Time) (waits : Waits n) : Prop :=
  ∀ r id, waits r = some id → e.asked r id start

/-- What a call computes with is covered by the evidence. -/
def Main.Covered (e : Evidence n) (quorumSize : Nat) (now : Time) : Main n → Prop
  | .acquireSubmit start _ waits | .renewSubmit start _ _ waits => start ≤ now ∧ e.Asked start waits
  | .acquireCollect start waits candidates | .renewCollect start waits candidates =>
    e.Asked start waits ∧ ∀ r c, candidates r = some c → e.kept r c
  | .acquireQuorum _ _ validUntil | .renewQuorum _ _ validUntil => e.QuorumKept quorumSize validUntil
  | _ => True

/-- The call on a lease, and `validUntil`, are covered by the evidence. -/
structure Lease.Covered (e : Evidence n) (quorumSize : Nat) (now : Time) (l : Lease n m) : Prop where
  main : l.main.Covered e quorumSize now
  valid : 0 < l.validUntil → e.QuorumKept quorumSize l.validUntil

/-- The later evidence includes the earlier. -/
structure Evidence.Le (e e' : Evidence n) : Prop where
  asked : ∀ {r id start}, e.asked r id start → e'.asked r id start
  kept : ∀ {r c}, e.kept r c → e'.kept r c

section Evidence

variable {e e' : Evidence n} {quorumSize : Nat} {now now' : Time}

theorem Evidence.QuorumKept.mono (hle : e.Le e') {v : Time} (h : e.QuorumKept quorumSize v) :
    e'.QuorumKept quorumSize v := by
  obtain ⟨A, hcard, hkept⟩ := h
  exact ⟨A, hcard, fun r hr => hle.kept (hkept r hr)⟩

theorem Evidence.Asked.mono (hle : e.Le e') {start : Time} {waits : Waits n}
    (h : e.Asked start waits) : e'.Asked start waits :=
  fun r id hr => hle.asked (h r id hr)

theorem Lease.Covered.mono {l : Lease n m} (hle : e.Le e') (hnow : now ≤ now')
    (h : l.Covered e quorumSize now) : l.Covered e' quorumSize now' where
  main := by
    have hm := h.main
    cases hmain : l.main with
    | acquireSubmit start todo waits | renewSubmit start ttlMS todo waits =>
      rw [hmain] at hm
      exact ⟨hm.1.trans hnow, hm.2.mono hle⟩
    | acquireCollect start waits candidates | renewCollect start waits candidates =>
      rw [hmain] at hm
      exact ⟨hm.1.mono hle, fun r c hc => hle.kept (hm.2 r c hc)⟩
    | acquireQuorum start waits validUntil | renewQuorum start waits validUntil =>
      rw [hmain] at hm
      exact Evidence.QuorumKept.mono hle hm
    | _ => trivial
  valid hpos := (h.valid hpos).mono hle

theorem Evidence.Asked.consume {start : Time} {waits : Waits n} (h : e.Asked start waits)
    (r : Fin n) : e.Asked start (waits.consume r) := by
  intro r' id hr'
  unfold Waits.consume at hr'
  by_cases hr : r' = r
  · subst hr
    rw [Function.update_self] at hr'
    cases hr'
  · rw [Function.update_of_ne hr] at hr'
    exact h r' id hr'

theorem Evidence.Asked.submit {start : Time} {waits : Waits n} (h : e.Asked start waits)
    {r : Fin n} {id : Nat} {accepted : Bool} (hasked : accepted = true → e.asked r id start) :
    e.Asked start (waits.submit r id accepted) := by
  intro r' id' hr'
  unfold Waits.submit at hr'
  split_ifs at hr' with haccepted
  · by_cases hr : r' = r
    · subst hr
      rw [Function.update_self] at hr'
      cases hr'
      exact hasked haccepted
    · rw [Function.update_of_ne hr] at hr'
      exact h r' id' hr'
  · exact h r' id' hr'

/-- The quorum that the loop of `Acquire` or `Renew` finds. -/
theorem verdict_quorum {now later : Time} {successful : Bool} {candidates : Candidates n}
    {remaining : Nat} {v : Time}
    (h : verdict quorumSize now later successful candidates remaining = .quorum v) :
    bestAcquireQuorum candidates quorumSize = some v ∧ now < v := by
  unfold verdict at h
  split at h
  · rename_i v' hv
    cases h
    obtain ⟨hbest, hlt⟩ := Option.filter_eq_some_iff.mp hv
    exact ⟨hbest, by simp only [Bool.and_eq_true, decide_eq_true_eq] at hlt; exact hlt.2⟩
  · split_ifs at h

/-- Candidates that are covered cover the quorum found among them. -/
theorem Evidence.quorumKept_of_best (hq : 0 < quorumSize) {candidates : Candidates n} {v : Time}
    (hkept : ∀ r c, candidates r = some c → e.kept r c)
    (h : bestAcquireQuorum candidates quorumSize = some v) : e.QuorumKept quorumSize v := by
  obtain ⟨A, hcard, hA⟩ := bestAcquireQuorum_spec hq h
  refine ⟨A, hcard, fun r hr => ?_⟩
  obtain ⟨c, hc, hvc⟩ := hA r hr
  exact e.kept_of_le hvc (hkept r c hc)

end Evidence

/-! ## Steps -/

/-- The response makes `Acquire` or `Renew` note a candidate. -/
def Successful (response : Response) : Prop :=
  response.operation = ClientOperation.acquire ∧ isSuccessfulAcquire response.status ∨
    response.operation = ClientOperation.renew ∧ response.status = LeaseStatus.ok

theorem acquireCandidate_cases {start c : Time} {response : Option Response}
    (h : acquireCandidate start response = some c) :
    ∃ answer, response = some answer ∧ Successful answer ∧
      c = candidateValidUntil start answer.ttlMS := by
  cases response with
  | none => cases h
  | some answer =>
    unfold acquireCandidate at h
    dsimp only at h
    split_ifs at h with hs
    cases h
    exact ⟨answer, rfl, Or.inl hs, rfl⟩

theorem renewCandidate_cases {start c : Time} {response : Option Response}
    (h : renewCandidate start response = some c) :
    ∃ answer, response = some answer ∧ Successful answer ∧
      c = candidateValidUntil start answer.ttlMS := by
  cases response with
  | none => cases h
  | some answer =>
    unfold renewCandidate at h
    dsimp only at h
    split_ifs at h with hs
    cases h
    exact ⟨answer, rfl, Or.inr hs, rfl⟩

namespace Lease

variable {l l' : Lease n m} {e : Evidence n} {quorumSize : Nat} {now : Time} {a : LeaseAct n m}

/-- The candidates after a response, which may add one. -/
theorem candidates_kept {candidates : Candidates n} {r : Fin n} {candidate : Option Time}
    (h : ∀ r c, candidates r = some c → e.kept r c) (hnew : ∀ c, candidate = some c → e.kept r c)
    (r' : Fin n) (c : Time)
    (hc : candidate.elim candidates (fun c => Function.update candidates r (some c)) r' = some c) :
    e.kept r' c := by
  cases candidate with
  | none => exact h r' c hc
  | some c₀ =>
    rw [Option.elim_some] at hc
    by_cases hr : r' = r
    · subst hr
      rw [Function.update_self] at hc
      exact hnew c hc
    · rw [Function.update_of_ne hr] at hc
      exact h r' c hc

/-- A response is received. -/
theorem receive_covered (hq : 0 < quorumSize) (h : l.Covered e quorumSize now) {r : Fin n}
    {response : Option Response} {mark pause : Time}
    (hkept : ∀ answer start, response = some answer → e.asked r answer.requestID start →
      Successful answer → e.kept r (candidateValidUntil start answer.ttlMS))
    (hs : l.receive quorumSize now mark pause r response = some l') :
    l'.Covered e quorumSize now := by
  have hnew : ∀ {start waits c}, waits.Answered r response → e.Asked start waits →
      (∃ answer, response = some answer ∧ Successful answer ∧
        c = candidateValidUntil start answer.ttlMS) → e.kept r c := by
    rintro start waits c ⟨id, hid, hmatch⟩ hasked ⟨answer, rfl, hsucc, rfl⟩
    exact hkept answer start rfl (hmatch answer rfl ▸ hasked r id hid) hsucc
  have hm := h.main
  unfold receive at hs
  split at hs
  case h_1 start waits candidates hmain =>
    rw [hmain] at hm
    obtain ⟨hasked, hcandidates⟩ := hm
    split_ifs at hs with hanswered
    cases hs
    obtain ⟨confirmedUntil, hconfirm⟩ :=
      l.confirmAcquire_eq now (now + mark) r (acquireCandidate start response)
    rw [hconfirm]
    refine ⟨?_, h.valid⟩
    have hall := candidates_kept hcandidates fun c hc =>
      hnew hanswered hasked (acquireCandidate_cases hc)
    dsimp only [setMain]
    split
    · rename_i v hv
      exact Evidence.quorumKept_of_best hq hall (verdict_quorum hv).1
    · exact ⟨hasked.consume r, hall⟩
    · trivial
  case h_2 start waits candidates hmain =>
    rw [hmain] at hm
    obtain ⟨hasked, hcandidates⟩ := hm
    split_ifs at hs with hanswered
    cases hs
    obtain ⟨confirmedUntil, hconfirm⟩ :=
      l.confirmRenew_eq now (now + mark) r (renewCandidate start response)
    rw [hconfirm]
    refine ⟨?_, h.valid⟩
    have hall := candidates_kept hcandidates fun c hc =>
      hnew hanswered hasked (renewCandidate_cases hc)
    dsimp only [setMain]
    split
    · rename_i v hv
      exact Evidence.quorumKept_of_best hq hall (verdict_quorum hv).1
    · exact ⟨hasked.consume r, hall⟩
    · trivial
  case h_3 => cases hs

/-- A request is enqueued, or refused. -/
theorem submit_covered (h : l.Covered e quorumSize now) {requestID : Nat} {accepted : Bool}
    (hasked : ∀ request start, l.outgoing (.submit requestID accepted) = some request →
      start ≤ now → e.asked request.replica request.requestID start)
    (hs : l.submit requestID accepted = some l') : l'.Covered e quorumSize now := by
  have hm := h.main
  unfold submit at hs
  split at hs
  case h_1 start r todo waits hmain =>
    rw [hmain] at hm
    cases hs
    refine ⟨⟨hm.1, hm.2.submit fun hacc => ?_⟩, h.valid⟩
    subst hacc
    exact hasked ⟨r, requestID, l.requestedTTLMS, .acquire⟩ start (by simp only [outgoing, hmain]) hm.1
  case h_2 start ttlMS r todo waits hmain =>
    rw [hmain] at hm
    cases hs
    have hmain' : Main.Covered e quorumSize now
        (.renewSubmit start ttlMS todo (waits.submit r requestID accepted)) := by
      refine ⟨hm.1, hm.2.submit fun hacc => ?_⟩
      subst hacc
      exact hasked ⟨r, requestID, ttlMS, .renew⟩ start (by simp only [outgoing, hmain]) hm.1
    obtain ⟨confirmedUntil, hclear⟩ := l.clearConfirmed_eq r
    rw [hclear]
    split_ifs
    · exact ⟨hmain', h.valid⟩
    · exact ⟨hmain', h.valid⟩
  case h_3 r todo hmain =>
    cases hs
    exact ⟨trivial, h.valid⟩
  case h_4 r todo hmain =>
    cases hs
    exact ⟨trivial, h.valid⟩
  case h_5 => cases hs

/-- The quorum is recorded. -/
theorem commit_covered (h : l.Covered e quorumSize now) {canceled : Bool} {j : Fin m}
    (hs : l.commit canceled j = some l') : l'.Covered e quorumSize now := by
  have hm := h.main
  unfold commit at hs
  split at hs
  case h_1 start waits v hmain =>
    rw [hmain] at hm
    split_ifs at hs
    · cases hs
      exact ⟨trivial, h.valid⟩
    · obtain ⟨-, rfl⟩ := spawn_cases hs
      exact ⟨trivial, fun _ => hm⟩
  case h_2 start waits v hmain =>
    rw [hmain] at hm
    split_ifs at hs
    · cases hs
      exact ⟨trivial, h.valid⟩
    · obtain ⟨-, rfl⟩ := spawn_cases hs
      refine ⟨trivial, fun hpos => ?_⟩
      rcases le_total l.validUntil v with hle | hle
      · show e.QuorumKept quorumSize (max l.validUntil v)
        rw [max_eq_right hle]
        exact hm
      · show e.QuorumKept quorumSize (max l.validUntil v)
        rw [max_eq_left hle]
        exact h.valid (by rwa [← max_eq_left hle])
  case h_3 => cases hs

/-- **Every step carries the evidence on.** -/
theorem step_covered (hq : 0 < quorumSize) (h : l.Covered e quorumSize now)
    (hasked : ∀ request start, l.outgoing a = some request → start ≤ now →
      e.asked request.replica request.requestID start)
    (hkept : ∀ r answer mark pause start, a = .receive r (some answer) mark pause →
      e.asked r answer.requestID start → Successful answer →
      e.kept r (candidateValidUntil start answer.ttlMS))
    (hs : l.step quorumSize now a = some l') : l'.Covered e quorumSize now := by
  obtain ⟨l₁, hmove, rfl⟩ := step_cases hs
  have hm := h.main
  suffices h₁ : l₁.Covered e quorumSize now from
    ⟨by rw [record_main]; exact h₁.main, by rw [record_validUntil]; exact h₁.valid⟩
  cases a with
  | submit requestID accepted => exact submit_covered h hasked hmove
  | receive r response mark pause =>
    refine receive_covered hq h (fun answer start hr => ?_) hmove
    exact hkept r answer mark pause start (by rw [hr])
  | commit canceled j => exact commit_covered h hmove
  | check canceled =>
    simp only [move, check] at hmove
    split at hmove
    case h_1 start waits hmain =>
      rw [hmain] at hm
      cases hmove
      refine ⟨?_, h.valid⟩
      dsimp only [setMain]
      split_ifs
      · trivial
      · exact ⟨hm.2, by rintro _ _ ⟨⟩⟩
    case h_2 start ttlMS waits hmain =>
      rw [hmain] at hm
      cases hmove
      refine ⟨?_, h.valid⟩
      dsimp only [setMain]
      split_ifs
      · trivial
      · exact ⟨hm.2, by rintro _ _ ⟨⟩⟩
    case h_3 => cases hmove
  | giveUp =>
    simp only [move, giveUp] at hmove
    split at hmove
    case h_3 => cases hmove
    all_goals
      cases hmove
      exact ⟨trivial, h.valid⟩
  | fail j =>
    simp only [move, fail] at hmove
    split at hmove
    case h_3 => cases hmove
    all_goals
      obtain ⟨-, rfl⟩ := spawn_cases hmove
      exact ⟨trivial, h.valid⟩
  | renew ttlMS =>
    simp only [move, renew] at hmove
    split at hmove
    · split_ifs at hmove
      · cases hmove
        exact ⟨⟨le_refl now, by rintro _ _ ⟨⟩⟩, h.valid⟩
      · cases hmove
        exact ⟨trivial, h.valid⟩
    · cases hmove
  | release =>
    simp only [move, release] at hmove
    split at hmove
    · split_ifs at hmove
      · cases hmove
        exact ⟨trivial, fun hpos => absurd hpos (Nat.lt_irrefl 0)⟩
      · cases hmove
        exact ⟨trivial, h.valid⟩
    · cases hmove
  | wait =>
    simp only [move, wait] at hmove
    split at hmove
    · split_ifs at hmove
      cases hmove
      exact ⟨trivial, h.valid⟩
    · cases hmove
  | done =>
    simp only [move, done] at hmove
    split at hmove
    · cases hmove
      exact ⟨trivial, h.valid⟩
    · cases hmove
  | task j b =>
    cases taskStep_cases hmove with
    | quiet | begun | submitted | ended => exact ⟨hm, h.valid⟩

end Lease

/-! ## Validity -/

/-- `Acquire` has returned the lease. -/
def Main.owned : Main n → Bool
  | .acquireSubmit _ _ _ | .acquireCollect _ _ _ | .acquireQuorum _ _ _ | .cleanup _ | .failed => false
  | _ => true

/-- `Acquire` has failed and cleans up. -/
def Main.gaveUp : Main n → Bool
  | .cleanup _ | .failed => true
  | _ => false

namespace Lease

variable {l l' : Lease n m} {quorumSize : Nat} {now : Time} {a : LeaseAct n m}

/-- All that a step can do to the validity of a lease. -/
inductive ValidityStep (l : Lease n m) (a : LeaseAct n m) (l' : Lease n m) : Prop
  | same (hv : l'.validUntil = l.validUntil) (hl : l'.lifecycle = l.lifecycle)
      (ho : l'.main.owned = l.main.owned) (hg : l.main.gaveUp = true → l'.main.gaveUp = true)
  | acquired (j : Fin m) (start : Time) (waits : Waits n) (v : Time) (ha : a = .commit false j)
      (hm : l.main = .acquireQuorum start waits v) (hv : l'.validUntil = v)
      (hl : l'.lifecycle = l.lifecycle) (ho : l'.main.owned = true)
  | renewed (j : Fin m) (start : Time) (waits : Waits n) (v : Time) (ha : a = .commit false j)
      (hm : l.main = .renewQuorum start waits v) (hv : l'.validUntil = max l.validUntil v)
      (hl : l'.lifecycle = l.lifecycle) (ho : l'.main.owned = true)
  | released (ho : l.main.owned = true) (hl : l'.lifecycle = .released) (hv : l'.validUntil = 0)
      (ho' : l'.main.owned = true)

theorem receive_validity {r : Fin n} {response : Option Response} {mark pause : Time}
    (h : l.receive quorumSize now mark pause r response = some l') :
    ValidityStep l (.receive r response mark pause) l' := by
  unfold receive at h
  split at h
  case h_1 start waits candidates hm =>
    split_ifs at h
    cases h
    obtain ⟨c, hc⟩ := l.confirmAcquire_eq now (now + mark) r (acquireCandidate start response)
    rw [hc]
    refine .same rfl rfl ?_ ?_
    · rw [hm]
      dsimp only [setMain]
      split <;> rfl
    · rw [hm]
      nofun
  case h_2 start waits candidates hm =>
    split_ifs at h
    cases h
    obtain ⟨c, hc⟩ := l.confirmRenew_eq now (now + mark) r (renewCandidate start response)
    rw [hc]
    refine .same rfl rfl ?_ ?_
    · rw [hm]
      dsimp only [setMain]
      split <;> rfl
    · rw [hm]
      nofun
  case h_3 => cases h

theorem submit_validity {requestID : Nat} {accepted : Bool}
    (h : l.submit requestID accepted = some l') :
    ValidityStep l (.submit requestID accepted) l' := by
  unfold submit at h
  split at h
  case h_1 start r todo waits hm =>
    cases h
    exact .same rfl rfl (by rw [hm]; rfl) (by rw [hm]; nofun)
  case h_2 start ttlMS r todo waits hm =>
    cases h
    obtain ⟨c, hc⟩ := l.clearConfirmed_eq r
    rw [hc]
    split_ifs
    all_goals exact .same rfl rfl (by rw [hm]; rfl) (by rw [hm]; nofun)
  case h_3 r todo hm =>
    cases h
    exact .same rfl rfl (by rw [hm]; rfl) (fun _ => rfl)
  case h_4 r todo hm =>
    cases h
    exact .same rfl rfl (by rw [hm]; rfl) (by rw [hm]; nofun)
  case h_5 => cases h

theorem commit_validity {canceled : Bool} {j : Fin m} (h : l.commit canceled j = some l') :
    ValidityStep l (.commit canceled j) l' := by
  unfold commit at h
  split at h
  case h_1 start waits v hm =>
    split_ifs at h with hcanceled
    · cases h
      exact .same rfl rfl (by rw [hm]; rfl) (by rw [hm]; nofun)
    · obtain ⟨-, rfl⟩ := spawn_cases h
      rw [Bool.not_eq_true] at hcanceled
      exact .acquired j start waits v (by rw [hcanceled]) hm rfl rfl rfl
  case h_2 start waits v hm =>
    split_ifs at h with hcanceled
    · cases h
      exact .same rfl rfl (by rw [hm]; rfl) (by rw [hm]; nofun)
    · obtain ⟨-, rfl⟩ := spawn_cases h
      rw [Bool.not_eq_true] at hcanceled
      exact .renewed j start waits v (by rw [hcanceled]) hm rfl rfl rfl
  case h_3 => cases h

theorem move_validity (h : l.move quorumSize now a = some l') : ValidityStep l a l' := by
  cases a with
  | submit requestID accepted => exact submit_validity h
  | receive r response mark pause => exact receive_validity h
  | commit canceled j => exact commit_validity h
  | check canceled =>
    simp only [move, check] at h
    split at h
    case h_1 start waits hm =>
      cases h
      refine .same rfl rfl ?_ (by rw [hm]; rintro ⟨⟩)
      rw [hm]
      dsimp only [setMain]
      split_ifs <;> rfl
    case h_2 start ttlMS waits hm =>
      cases h
      refine .same rfl rfl ?_ (by rw [hm]; rintro ⟨⟩)
      rw [hm]
      dsimp only [setMain]
      split_ifs <;> rfl
    case h_3 => cases h
  | giveUp =>
    simp only [move, giveUp] at h
    split at h
    case h_1 start waits candidates hm =>
      cases h
      exact .same rfl rfl (by rw [hm]; rfl) (by rw [hm]; rintro ⟨⟩)
    case h_2 start waits candidates hm =>
      cases h
      exact .same rfl rfl (by rw [hm]; rfl) (by rw [hm]; rintro ⟨⟩)
    case h_3 => cases h
  | fail j =>
    simp only [move, fail] at h
    split at h
    case h_1 hm =>
      obtain ⟨-, rfl⟩ := spawn_cases h
      exact .same rfl rfl (by rw [hm]; rfl) (fun _ => rfl)
    case h_2 start waits hm =>
      obtain ⟨-, rfl⟩ := spawn_cases h
      exact .same rfl rfl (by rw [hm]; rfl) (by rw [hm]; rintro ⟨⟩)
    case h_3 => cases h
  | renew ttlMS =>
    simp only [move, renew] at h
    split at h
    · rename_i o hm
      split_ifs at h
      all_goals
        cases h
        exact .same rfl rfl (by rw [hm]; rfl) (by rw [hm]; rintro ⟨⟩)
    · cases h
  | release =>
    simp only [move, release] at h
    split at h
    · rename_i o hm
      split_ifs at h
      · cases h
        exact .released (by rw [hm]; rfl) rfl rfl rfl
      · cases h
        exact .same rfl rfl (by rw [hm]; rfl) (by rw [hm]; rintro ⟨⟩)
    · cases h
  | wait =>
    simp only [move, wait] at h
    split at h
    · rename_i hm
      split_ifs at h
      cases h
      exact .same rfl rfl (by rw [hm]; rfl) (by rw [hm]; rintro ⟨⟩)
    · cases h
  | done =>
    simp only [move, done] at h
    split at h
    · rename_i hm
      cases h
      exact .same rfl rfl (by rw [hm]; rfl) (by rw [hm]; rintro ⟨⟩)
    · cases h
  | task j b =>
    cases taskStep_cases h with
    | quiet | begun | submitted | ended => exact .same rfl rfl rfl id

/-- **What a step does to the validity of a lease.** -/
theorem step_validity (hs : l.step quorumSize now a = some l') : ValidityStep l a l' := by
  obtain ⟨l₁, hmove, rfl⟩ := step_cases hs
  have hv := record_validUntil (l := l₁) (l.outgoing a)
  have hl := record_lifecycle (l := l₁) (l.outgoing a)
  have hm := record_main (l := l₁) (l.outgoing a)
  generalize l₁.record (l.outgoing a) = l' at hv hl hm
  cases move_validity hmove with
  | same h1 h2 h3 h4 =>
    exact .same (hv.trans h1) (hl.trans h2) (hm ▸ h3) (hm ▸ h4)
  | acquired j start waits v ha hmain h1 h2 h3 =>
    exact .acquired j start waits v ha hmain (hv.trans h1) (hl.trans h2) (hm ▸ h3)
  | renewed j start waits v ha hmain h1 h2 h3 =>
    exact .renewed j start waits v ha hmain (hv.trans h1) (hl.trans h2) (hm ▸ h3)
  | released ho h1 h2 h3 => exact .released ho (hl.trans h1) (hv.trans h2) (hm ▸ h3)

/-- The lease is given up for good. -/
def Abandoned (l : Lease n m) : Prop := l.lifecycle = .released ∨ l.main.gaveUp = true

theorem Abandoned.step (h : l.Abandoned) (hs : l.step quorumSize now a = some l') :
    l'.Abandoned := by
  cases step_validity hs with
  | same hv hl ho hg => exact h.imp hl.trans hg
  | acquired j start waits v ha hm hv hl ho | renewed j start waits v ha hm hv hl ho =>
    refine h.imp hl.trans fun hg => ?_
    rw [hm] at hg
    cases hg
  | released ho hl hv ho' => exact Or.inl hl

theorem owned_step (h : l.main.owned = true) (hs : l.step quorumSize now a = some l') :
    l'.main.owned = true := by
  cases step_validity hs with
  | same hv hl ho hg => exact ho.trans h
  | acquired j start waits v ha hm hv hl ho => exact ho
  | renewed j start waits v ha hm hv hl ho => exact ho
  | released ho hl hv ho' => exact ho'

/-- A lease gets a validity only from the `Acquire` that returns it. -/
def Early (l : Lease n m) : Prop := l.main.owned = false → l.validUntil = 0

theorem Early.step (h : l.Early) (hs : l.step quorumSize now a = some l') : l'.Early := by
  intro hm
  cases step_validity hs with
  | same hv hl ho hg => exact hv.trans (h (ho ▸ hm))
  | acquired j start waits v ha hmain hv hl ho | renewed j start waits v ha hmain hv hl ho =>
    rw [ho] at hm; cases hm
  | released ho hl hv ho' => exact hv

theorem gaveUp_not_owned {main : Main n} (h : main.gaveUp = true) : main.owned = false := by
  cases main with
  | cleanup todo => rfl
  | failed => rfl
  | _ => cases h

/-- An abandoned lease is not valid. -/
theorem Abandoned.not_valid (h : l.Abandoned) (he : l.Early) :
    ¬ (l.lifecycle = .active ∧ now < l.validUntil) := by
  rintro ⟨hactive, hlt⟩
  rcases h with hreleased | hg
  · rw [hactive] at hreleased
    cases hreleased
  · rw [he (gaveUp_not_owned hg)] at hlt
    exact absurd hlt (Nat.not_lt_zero now)

/-- A Release is enqueued only for a lease that is given up. -/
theorem abandoned_of_release (hi : l.Inv) {request : Request n}
    (h : l.outgoing a = some request) (hkind : request.origin.kind = .release) : l.Abandoned := by
  unfold outgoing at h
  split at h
  · split at h
    case h_3 r todo hm =>
      exact Or.inr (by rw [hm]; rfl)
    case h_4 r todo hm =>
      have hstage := hi.stage
      unfold Stage at hstage
      rw [hm] at hstage
      exact Or.inl hstage.1
    case h_5 => cases h
    all_goals
      cases h
      cases hkind
  · split at h
    · cases h
      cases hkind
    · cases h
  · cases h

end Lease

end RedLease.Client
