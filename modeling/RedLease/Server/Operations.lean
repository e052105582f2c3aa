import Mathlib.Algebra.Group.Nat.Defs
import RedLease.Server.Shard

/-!
# The locked sections of Acquire, Renew and Release

What the three operations of `server/state.go` do to one shard while they hold its lock, up to the
accounting of keys, which happens in atomic steps of its own (`Store.lean` runs them in sequence,
`Concurrent.lean` interleaves them). A section returns the new shard, how many entries it removed
(each is followed by `releaseKeys(1)`), and the response, or `none` where Acquire goes on to reserve
a key. Logging has no effect on the state and is left out.

`acquireHead_cases`, `renewBody_cases` and `releaseBody_cases` say everything a section can do in
terms of the stored entry. `lockedSection_spec` says it of all three at once: the shard stays well
formed, and its entries change as `Effect` says, those of other keys not at all (`Effect.other`).
-/

namespace RedLease.Server

open LeaseShard

/-- `Config` as `resolveConfig` returns it: validated, with the defaults filled in. -/
structure Config where
  maxTTL : Nat
  maxKeys : Nat
  shardCount : Nat
  maxTTL_pos : 0 < maxTTL
  maxTTL_le : maxTTL ≤ maxTTLMS
  maxKeys_pos : 0 < maxKeys
  shardCount_pow : ∃ b, shardCount = 2 ^ b

theorem two_shards_pow : ∃ b, 2 = 2 ^ b := ⟨1, rfl⟩

/-- Two shards with room for one key. -/
def tinyConfig : Config := ⟨5000, 1, 2, by decide, by decide, by decide, two_shards_pow⟩

/-- `remainingTTLMS`. -/
def remainingTTLMS (deadline now : Time) (maximum : Nat) : Nat :=
  min ((deadline - now) / millisecond) maximum

/-- `min(op.requestedTTLMS, s.config.MaxTTL)`. -/
def effectiveTTLMS (maxTTL : Nat) (op : Operation) : Nat := min op.requestedTTLMS maxTTL

/-- The shard after a locked section, the number of entries it removed, and the response. -/
structure Locked where
  shard : LeaseShard
  removed : Nat
  reply : Option Response

/-- `acquireLocked` up to the removal of an expired entry. -/
def acquireHead (maxTTL : Nat) (s : LeaseShard) (op : Operation) (now : Time) : Locked :=
  match s.find op.key with
  | some p =>
    let current := s.mem p
    if now < current.deadline ∧ current.id = op.leaseID then
      ⟨s, 0, some (acquireResponse op.requestID LeaseStatus.alreadyOwned
        (remainingTTLMS current.deadline now maxTTL))⟩
    else if now < current.deadline then
      ⟨s, 0, some (acquireResponse op.requestID LeaseStatus.busy 0)⟩
    else ⟨s.removeLease p, 1, none⟩
  | none => ⟨s, 0, none⟩

/-- `renew`. -/
def renewBody (maxTTL : Nat) (s : LeaseShard) (op : Operation) (now : Time) : Locked :=
  match s.find op.key with
  | some p =>
    let current := s.mem p
    if current.deadline ≤ now then
      ⟨s.removeLease p, 1, some (renewResponse op.requestID LeaseStatus.stale 0)⟩
    else if current.id ≠ op.leaseID then
      ⟨s, 0, some (renewResponse op.requestID LeaseStatus.stale 0)⟩
    else
      let candidate := now + effectiveTTLMS maxTTL op * millisecond
      if current.deadline < candidate then
        ⟨s.extend p candidate, 0, some (renewResponse op.requestID LeaseStatus.ok
          (remainingTTLMS candidate now maxTTL))⟩
      else
        ⟨s, 0, some (renewResponse op.requestID LeaseStatus.ok
          (remainingTTLMS current.deadline now maxTTL))⟩
  | none => ⟨s, 0, some (renewResponse op.requestID LeaseStatus.stale 0)⟩

/-- `release`. -/
def releaseBody (s : LeaseShard) (op : Operation) (now : Time) : Locked :=
  match s.find op.key with
  | some p =>
    let current := s.mem p
    if current.deadline ≤ now then
      ⟨s.removeLease p, 1, some (releaseResponse op.requestID LeaseStatus.ok)⟩
    else if current.id = op.leaseID then
      ⟨s.removeLease p, 1, some (releaseResponse op.requestID LeaseStatus.ok)⟩
    else ⟨s, 0, some (releaseResponse op.requestID LeaseStatus.ok)⟩
  | none => ⟨s, 0, some (releaseResponse op.requestID LeaseStatus.ok)⟩

/-- The locked section of an operation. -/
def lockedSection (maxTTL : Nat) (s : LeaseShard) (op : Operation) (now : Time) : Locked :=
  match op.kind with
  | .acquire => acquireHead maxTTL s op now
  | .renew => renewBody maxTTL s op now
  | .release => releaseBody s op now

section Cases

variable {maxTTL : Nat} {s : LeaseShard} {op : Operation} {now : Time}

theorem exists_find_of_view {k : Nat} {e : LeaseID × Time} (h : s.view k = some e) :
    ∃ p, s.find k = some p ∧ (s.mem p).id = e.1 ∧ (s.mem p).deadline = e.2 := by
  cases hf : s.find k with
  | none => rw [view_eq_none.mpr hf] at h; cases h
  | some p =>
    rw [view_of_find hf] at h
    cases h
    exact ⟨p, rfl, rfl, rfl⟩

/-- The four ways through the head of `acquireLocked`. -/
theorem acquireHead_cases (s : LeaseShard) (maxTTL : Nat) (op : Operation) (now : Time) :
    (∃ d, s.view op.key = some (op.leaseID, d) ∧ now < d ∧
      acquireHead maxTTL s op now = ⟨s, 0, some (acquireResponse op.requestID
        LeaseStatus.alreadyOwned (remainingTTLMS d now maxTTL))⟩) ∨
    (∃ id d, s.view op.key = some (id, d) ∧ id ≠ op.leaseID ∧ now < d ∧
      acquireHead maxTTL s op now =
        ⟨s, 0, some (acquireResponse op.requestID LeaseStatus.busy 0)⟩) ∨
    (∃ id d p, s.view op.key = some (id, d) ∧ d ≤ now ∧ s.find op.key = some p ∧
      acquireHead maxTTL s op now = ⟨s.removeLease p, 1, none⟩) ∨
    (s.view op.key = none ∧ acquireHead maxTTL s op now = ⟨s, 0, none⟩) := by
  cases hf : s.find op.key with
  | none => exact Or.inr (Or.inr (Or.inr ⟨view_eq_none.mpr hf, by simp only [acquireHead, hf]⟩))
  | some p =>
    have hv := view_of_find hf
    by_cases hlive : now < (s.mem p).deadline
    · by_cases hid : (s.mem p).id = op.leaseID
      · refine Or.inl ⟨(s.mem p).deadline, by rw [hv, hid], hlive, ?_⟩
        simp only [acquireHead, hf, hlive, hid, and_self, if_true]
      · refine Or.inr (Or.inl ⟨_, _, hv, hid, hlive, ?_⟩)
        simp only [acquireHead, hf, hlive, hid, and_false, if_false, if_true]
    · refine Or.inr (Or.inr (Or.inl ⟨_, _, p, hv, not_lt.mp hlive, rfl, ?_⟩))
      simp only [acquireHead, hf, hlive, false_and, if_false]

/-- The ways through `renew`: no live entry of this lease ID, or its renewal. -/
theorem renewBody_cases (s : LeaseShard) (maxTTL : Nat) (op : Operation) (now : Time) :
    (s.view op.key = none ∧ renewBody maxTTL s op now =
      ⟨s, 0, some (renewResponse op.requestID LeaseStatus.stale 0)⟩) ∨
    (∃ id d p, s.view op.key = some (id, d) ∧ d ≤ now ∧ s.find op.key = some p ∧
      renewBody maxTTL s op now =
        ⟨s.removeLease p, 1, some (renewResponse op.requestID LeaseStatus.stale 0)⟩) ∨
    (∃ id d, s.view op.key = some (id, d) ∧ id ≠ op.leaseID ∧ now < d ∧
      renewBody maxTTL s op now =
        ⟨s, 0, some (renewResponse op.requestID LeaseStatus.stale 0)⟩) ∨
    (∃ d p, s.view op.key = some (op.leaseID, d) ∧ now < d ∧ s.find op.key = some p ∧
      d < now + effectiveTTLMS maxTTL op * millisecond ∧
      renewBody maxTTL s op now =
        ⟨s.extend p (now + effectiveTTLMS maxTTL op * millisecond), 0,
          some (renewResponse op.requestID LeaseStatus.ok
            (remainingTTLMS (now + effectiveTTLMS maxTTL op * millisecond) now maxTTL))⟩) ∨
    (∃ d, s.view op.key = some (op.leaseID, d) ∧ now < d ∧
      now + effectiveTTLMS maxTTL op * millisecond ≤ d ∧
      renewBody maxTTL s op now = ⟨s, 0, some (renewResponse op.requestID LeaseStatus.ok
        (remainingTTLMS d now maxTTL))⟩) := by
  cases hf : s.find op.key with
  | none => exact Or.inl ⟨view_eq_none.mpr hf, by simp only [renewBody, hf]⟩
  | some p =>
    have hv := view_of_find hf
    right
    by_cases hexp : (s.mem p).deadline ≤ now
    · exact Or.inl ⟨_, _, p, hv, hexp, rfl, by simp only [renewBody, hf, hexp, if_true]⟩
    · by_cases hid : (s.mem p).id = op.leaseID
      · rw [hid] at hv
        by_cases hc : (s.mem p).deadline < now + effectiveTTLMS maxTTL op * millisecond
        · refine Or.inr (Or.inr (Or.inl ⟨_, p, hv, not_le.mp hexp, rfl, hc, ?_⟩))
          simp only [renewBody, hf, hexp, hid, hc, ne_eq, not_true_eq_false, if_false, if_true]
        · refine Or.inr (Or.inr (Or.inr ⟨_, hv, not_le.mp hexp, not_lt.mp hc, ?_⟩))
          simp only [renewBody, hf, hexp, hid, hc, ne_eq, not_true_eq_false, if_false]
      · refine Or.inr (Or.inl ⟨_, _, hv, hid, not_le.mp hexp, ?_⟩)
        simp only [renewBody, hf, hexp, hid, ne_eq, not_false_eq_true, if_false, if_true]

/-- The ways through `release`: the entry goes if it expired or is this lease's. -/
theorem releaseBody_cases (s : LeaseShard) (op : Operation) (now : Time) :
    (s.view op.key = none ∧ releaseBody s op now =
      ⟨s, 0, some (releaseResponse op.requestID LeaseStatus.ok)⟩) ∨
    (∃ id d p, s.view op.key = some (id, d) ∧ (d ≤ now ∨ id = op.leaseID) ∧
      s.find op.key = some p ∧ releaseBody s op now =
        ⟨s.removeLease p, 1, some (releaseResponse op.requestID LeaseStatus.ok)⟩) ∨
    (∃ id d, s.view op.key = some (id, d) ∧ id ≠ op.leaseID ∧ now < d ∧
      releaseBody s op now =
        ⟨s, 0, some (releaseResponse op.requestID LeaseStatus.ok)⟩) := by
  cases hf : s.find op.key with
  | none => exact Or.inl ⟨view_eq_none.mpr hf, by simp only [releaseBody, hf]⟩
  | some p =>
    have hv := view_of_find hf
    right
    by_cases hexp : (s.mem p).deadline ≤ now
    · exact Or.inl ⟨_, _, p, hv, Or.inl hexp, rfl, by simp only [releaseBody, hf, hexp, if_true]⟩
    · by_cases hid : (s.mem p).id = op.leaseID
      · refine Or.inl ⟨_, _, p, hv, Or.inr hid, rfl, ?_⟩
        simp only [releaseBody, hf, hexp, hid, if_true, if_false]
      · refine Or.inr ⟨_, _, hv, hid, not_le.mp hexp, ?_⟩
        simp only [releaseBody, hf, hexp, hid, if_false]

/-! ## The effect of a section on what is stored -/

/-- What a locked section can do to the entries: nothing; remove the entry of its key, expired or
its own; or move the deadline of its own live entry forward. -/
inductive Effect (maxTTL : Nat) (v v' : Nat → Option (LeaseID × Time)) (op : Operation)
    (now : Time) : Nat → Prop
  | same (hv : v' = v) : Effect maxTTL v v' op now 0
  | removed (id : LeaseID) (d : Time) (hkey : v op.key = some (id, d))
      (hwhy : d ≤ now ∨ op.kind = .release ∧ id = op.leaseID)
      (hv : ∀ k, v' k = if k = op.key then none else v k) : Effect maxTTL v v' op now 1
  | extended (d : Time) (hkind : op.kind = .renew) (hkey : v op.key = some (op.leaseID, d))
      (hlive : now < d) (hd : d < now + effectiveTTLMS maxTTL op * millisecond)
      (hv : ∀ k, v' k = if k = op.key then
        some (op.leaseID, now + effectiveTTLMS maxTTL op * millisecond) else v k) :
      Effect maxTTL v v' op now 0

/-- **The locked sections**: the shard stays well formed, the removed entries are counted, and the
stored entries change as `Effect` says. -/
theorem lockedSection_spec (maxTTL : Nat) (op : Operation) (now : Time) (h : WF s) :
    WF (lockedSection maxTTL s op now).shard ∧
      (lockedSection maxTTL s op now).shard.size + (lockedSection maxTTL s op now).removed =
        s.size ∧
      Effect maxTTL s.view (lockedSection maxTTL s op now).shard.view op now
        (lockedSection maxTTL s op now).removed := by
  have keep : WF s ∧ s.size + 0 = s.size ∧ Effect maxTTL s.view s.view op now 0 :=
    ⟨h, rfl, Effect.same rfl⟩
  have drop : ∀ {id d p}, s.view op.key = some (id, d) →
      (d ≤ now ∨ op.kind = .release ∧ id = op.leaseID) → s.find op.key = some p →
      WF (s.removeLease p) ∧ (s.removeLease p).size + 1 = s.size ∧
      Effect maxTTL s.view (s.removeLease p).view op now 1 := by
    intro id d p hv hwhy hf
    obtain ⟨hwf, hview, hsize⟩ := removeLease_spec h hf
    exact ⟨hwf, hsize, Effect.removed id d hv hwhy hview⟩
  unfold lockedSection
  cases hkind : op.kind with
  | acquire =>
    rcases acquireHead_cases s maxTTL op now with
      ⟨d, -, -, heq⟩ | ⟨id, d, -, -, -, heq⟩ | ⟨id, d, p, hv, hd, hf, heq⟩ | ⟨-, heq⟩
    · simp only [heq]; exact keep
    · simp only [heq]; exact keep
    · simp only [heq]; exact drop hv (Or.inl hd) hf
    · simp only [heq]; exact keep
  | renew =>
    rcases renewBody_cases s maxTTL op now with
      ⟨-, heq⟩ | ⟨id, d, p, hv, hd, hf, heq⟩ | ⟨id, d, -, -, -, heq⟩ |
      ⟨d, p, hv, hlive, hf, hd, heq⟩ | ⟨d, -, -, -, heq⟩
    · simp only [heq]; exact keep
    · simp only [heq]; exact drop hv (Or.inl hd) hf
    · simp only [heq]; exact keep
    · simp only [heq]
      obtain ⟨hwf, hview, hsize⟩ :=
        extend_spec h hf (now + effectiveTTLMS maxTTL op * millisecond)
      obtain ⟨p', hf', hid, -⟩ := exists_find_of_view hv
      rw [hf] at hf'
      cases hf'
      rw [hid] at hview
      exact ⟨hwf, hsize, Effect.extended d hkind hv hlive hd hview⟩
    · simp only [heq]; exact keep
  | release =>
    rcases releaseBody_cases s op now with
      ⟨-, heq⟩ | ⟨id, d, p, hv, hd, hf, heq⟩ | ⟨id, d, -, -, -, heq⟩
    · simp only [heq]; exact keep
    · simp only [heq]
      exact drop hv (hd.imp_right fun hid => ⟨hkind, hid⟩) hf
    · simp only [heq]; exact keep

variable {v v' : Nat → Option (LeaseID × Time)} {removed : Nat}

theorem Effect.other (e : Effect maxTTL v v' op now removed) {k : Nat} (hk : k ≠ op.key) :
    v' k = v k := by
  cases e with
  | same hv => rw [hv]
  | removed id d hkey hwhy hv | extended d hkind hkey hlive hd hv => rw [hv, if_neg hk]

theorem Effect.removed_cases (e : Effect maxTTL v v' op now removed) :
    removed = 0 ∨ removed = 1 := by
  cases e with
  | same => exact Or.inl rfl
  | removed => exact Or.inr rfl
  | extended => exact Or.inl rfl

/-- A section stores no lease ID that was not stored before, and a deadline it sets is at most the
maximal TTL after its `now`. -/
theorem Effect.origin (e : Effect maxTTL v v' op now removed) {k : Nat} {id : LeaseID} {d : Time}
    (hk : v' k = some (id, d)) :
    v k = some (id, d) ∨ ∃ d₀, v k = some (id, d₀) ∧ d₀ < d ∧ now < d₀ ∧ k = op.key ∧
      id = op.leaseID ∧ op.kind = .renew ∧ d = now + effectiveTTLMS maxTTL op * millisecond := by
  cases e with
  | same hv => exact Or.inl (by rw [← hv, hk])
  | removed id' d₀ hkey hwhy hv =>
    rw [hv] at hk
    split_ifs at hk
    exact Or.inl hk
  | extended d₀ hkind hkey hlive hd₀ hv =>
    rw [hv] at hk
    split_ifs at hk with hkk
    · cases hk
      subst hkk
      exact Or.inr ⟨d₀, hkey, hd₀, hlive, rfl, rfl, hkind, rfl⟩
    · exact Or.inl hk

theorem effectiveTTLMS_le (maxTTL : Nat) (op : Operation) : effectiveTTLMS maxTTL op ≤ maxTTL :=
  Nat.min_le_right _ _

theorem remainingTTLMS_le (d now : Time) (maximum : Nat) :
    remainingTTLMS d now maximum ≤ maximum := Nat.min_le_right _ _

/-- The announced remaining time ends no later than the deadline. -/
theorem now_add_remaining_le {d now : Time} (maximum : Nat) (h : now ≤ d) :
    now + remainingTTLMS d now maximum * millisecond ≤ d := by
  have h1 : remainingTTLMS d now maximum ≤ (d - now) / millisecond := Nat.min_le_left _ _
  have h2 : (d - now) / millisecond * millisecond ≤ d - now := Nat.div_mul_le_self _ _
  calc now + remainingTTLMS d now maximum * millisecond
      ≤ now + (d - now) := Nat.add_le_add_left ((Nat.mul_le_mul_right millisecond h1).trans h2) now
    _ = d := Nat.add_sub_cancel' h

/-! ## The response of a section -/

/-- `OK` or `ALREADY_OWNED` with a positive TTL, from an Acquire or a Renew. -/
def Response.Grants (op : Operation) (r : Response) : Prop :=
  op.kind ≠ .release ∧ (r.status = LeaseStatus.ok ∨ r.status = LeaseStatus.alreadyOwned) ∧
    0 < r.ttlMS

/-- **A granting response of a section is backed by a stored entry**: the lease ID of the
operation, with a deadline no earlier than `now` plus the announced TTL. -/
theorem lockedSection_grants (h : WF s) {r : Response}
    (hr : (lockedSection maxTTL s op now).reply = some r) (hg : Response.Grants op r) :
    ∃ d, (lockedSection maxTTL s op now).shard.view op.key = some (op.leaseID, d) ∧
      now + r.ttlMS * millisecond ≤ d ∧ r.ttlMS ≤ maxTTL := by
  unfold lockedSection at hr ⊢
  obtain ⟨hkind, hst, hpos⟩ := hg
  cases hk : op.kind with
  | acquire =>
    rw [hk] at hr
    rcases acquireHead_cases s maxTTL op now with
      ⟨d, hv, hd, heq⟩ | ⟨id, d, -, -, -, heq⟩ | ⟨id, d, p, -, -, -, heq⟩ | ⟨-, heq⟩
    · simp only [heq, Option.some.injEq] at hr ⊢
      subst hr
      exact ⟨d, hv, now_add_remaining_le maxTTL (le_of_lt hd), remainingTTLMS_le _ _ _⟩
    · simp only [heq, Option.some.injEq] at hr
      subst hr
      exact absurd hpos (by simp [acquireResponse])
    · simp only [heq] at hr
      cases hr
    · simp only [heq] at hr
      cases hr
  | renew =>
    rw [hk] at hr
    have stale : some (renewResponse op.requestID LeaseStatus.stale 0) = some r → False := by
      intro e
      cases e
      exact absurd hpos (by simp [renewResponse])
    rcases renewBody_cases s maxTTL op now with
      ⟨-, heq⟩ | ⟨id, d, p, -, -, -, heq⟩ | ⟨id, d, -, -, -, heq⟩ |
      ⟨d, p, hv, hlive, hf, hd, heq⟩ | ⟨d, hv, hd, -, heq⟩
    · simp only [heq] at hr; exact (stale hr).elim
    · simp only [heq] at hr; exact (stale hr).elim
    · simp only [heq] at hr; exact (stale hr).elim
    · simp only [heq, Option.some.injEq] at hr ⊢
      subst hr
      obtain ⟨-, hview, -⟩ := extend_spec h hf (now + effectiveTTLMS maxTTL op * millisecond)
      obtain ⟨p', hf', hid, -⟩ := exists_find_of_view hv
      rw [hf] at hf'
      cases hf'
      refine ⟨_, by rw [hview, if_pos rfl, hid], ?_, remainingTTLMS_le _ _ _⟩
      exact now_add_remaining_le maxTTL (Nat.le_add_right _ _)
    · simp only [heq, Option.some.injEq] at hr ⊢
      subst hr
      exact ⟨d, hv, now_add_remaining_le maxTTL (le_of_lt hd), remainingTTLMS_le _ _ _⟩
  | release => exact absurd hk hkind

/-- Only an Acquire goes on after its section, and then its key is not stored. -/
theorem lockedSection_none (h : WF s) (hr : (lockedSection maxTTL s op now).reply = none) :
    op.kind = .acquire ∧ (lockedSection maxTTL s op now).shard.view op.key = none := by
  unfold lockedSection at hr ⊢
  cases hk : op.kind with
  | acquire =>
    rw [hk] at hr
    refine ⟨rfl, ?_⟩
    rcases acquireHead_cases s maxTTL op now with
      ⟨d, -, -, heq⟩ | ⟨id, d, -, -, -, heq⟩ | ⟨id, d, p, -, -, hf, heq⟩ | ⟨hv, heq⟩
    · simp only [heq] at hr; cases hr
    · simp only [heq] at hr; cases hr
    · obtain ⟨-, hview, -⟩ := removeLease_spec h hf
      simp only [heq, hview, if_true]
    · simp only [heq, hv]
  | renew =>
    rw [hk] at hr
    rcases renewBody_cases s maxTTL op now with
      ⟨-, heq⟩ | ⟨id, d, p, -, -, -, heq⟩ | ⟨id, d, -, -, -, heq⟩ |
      ⟨d, p, -, -, -, -, heq⟩ | ⟨d, -, -, -, heq⟩
    all_goals simp only [heq] at hr; cases hr
  | release =>
    rw [hk] at hr
    rcases releaseBody_cases s op now with
      ⟨-, heq⟩ | ⟨id, d, p, -, -, -, heq⟩ | ⟨id, d, -, -, -, heq⟩
    all_goals simp only [heq] at hr; cases hr

/-- **While another lease's entry is live**, Acquire answers `BUSY`, Renew answers `STALE`, and the
shard does not change. -/
theorem lockedSection_foreign (maxTTL : Nat) {id : LeaseID} {d : Time} (hv : s.view op.key = some (id, d))
    (hd : now < d) (hid : id ≠ op.leaseID) :
    (lockedSection maxTTL s op now).shard = s ∧ (lockedSection maxTTL s op now).removed = 0 ∧
      (op.kind = .acquire → (lockedSection maxTTL s op now).reply =
        some (acquireResponse op.requestID LeaseStatus.busy 0)) ∧
      (op.kind = .renew → (lockedSection maxTTL s op now).reply =
        some (renewResponse op.requestID LeaseStatus.stale 0)) := by
  obtain ⟨p, hf, hid', hd'⟩ := exists_find_of_view hv
  simp only at hid' hd'
  unfold lockedSection
  cases hk : op.kind with
  | acquire => simp [acquireHead, hf, hid', hd', hd, hid]
  | renew => simp [renewBody, hf, hid', hd', not_le.mpr hd, hid]
  | release => simp [releaseBody, hf, hid', hd', not_le.mpr hd, hid]

end Cases

end RedLease.Server
