import RedLease.Server.Store

/-!
# The representation of a shard

A shard on its own, under any sequence of calls of `acquireLocked`, `renew`, `release` and
`removeExpiredLeases` with any arguments and any times. Whether `reserveKey` succeeds is decided
outside of the shard, and so is the object that the pool returns, if any.

**`shard_represented`**: map, heap and pool fit together in every state that can be reached, and
`removeExpiredLeases` removes from it what has expired. It reads `WF` of `Shard.lean` off as a
statement about the three structures; `acquireLocked_shard` says that the store's `acquireLocked`
does to its shard what is done here.
-/

namespace RedLease.Server

open LeaseShard

/-- A call on a shard. -/
inductive ShardCall where
  /-- `room` is whether `reserveKey` succeeds. -/
  | acquireLocked (op : Operation) (now : Time) (room : Bool) (pool : PoolGet)
  | renew (op : Operation) (now : Time)
  | release (op : Operation) (now : Time)
  | removeExpiredLeases (now : Time)

namespace LeaseShard

/-- `acquireLocked`, as far as it concerns the shard. -/
def acquireLocked (maxTTL : Nat) (s : LeaseShard) (op : Operation) (now : Time) (room : Bool)
    (pool : PoolGet) : LeaseShard :=
  let l := acquireHead maxTTL s op now
  let ttl := effectiveTTLMS maxTTL op
  match l.reply with
  | some _ => l.shard
  | none =>
    if ttl = 0 ∨ room = false then l.shard
    else l.shard.addLease pool op.key op.leaseID (now + ttl * millisecond)

/-- The shard after a call. -/
def call (maxTTL : Nat) (s : LeaseShard) : ShardCall → LeaseShard
  | .acquireLocked op now room pool => s.acquireLocked maxTTL op now room pool
  | .renew op now => (renewBody maxTTL s op now).shard
  | .release op now => (releaseBody s op now).shard
  | .removeExpiredLeases now => (s.removeExpiredLeases now).1

/-- The store's `acquireLocked` is this one on its shard. -/
theorem acquireLocked_shard {n : Nat} (cfg : Config) (pool : PoolGet) (s : Store n) (i : Fin n)
    (op : Operation) (now : Time) : ∃ room,
    (s.acquireLocked cfg pool i op now).1.shards i =
      (s.shards i).acquireLocked cfg.maxTTL op now room pool := by
  have hsection : ∀ l : Locked, (s.runSection i l).shards i = l.shard := by
    intro l
    unfold Store.runSection Store.releaseKeys
    split_ifs
    · exact Function.update_self ..
    · exact Function.update_self ..
    · exact Function.update_self ..
  unfold Store.acquireLocked LeaseShard.acquireLocked
  dsimp only
  cases hr : (acquireHead cfg.maxTTL (s.shards i) op now).reply with
  | some r => exact ⟨true, hsection _⟩
  | none =>
    unfold Store.acquireTail Store.reserveKey
    dsimp only
    by_cases httl : effectiveTTLMS cfg.maxTTL op = 0
    · refine ⟨true, ?_⟩
      rw [if_pos httl, if_pos (Or.inl httl)]
      exact hsection _
    by_cases hfull :
        cfg.maxKeys ≤ (s.runSection i (acquireHead cfg.maxTTL (s.shards i) op now)).keys
    · refine ⟨false, ?_⟩
      rw [if_neg httl, if_pos hfull, if_pos (Or.inr rfl)]
      exact hsection _
    · refine ⟨true, ?_⟩
      rw [if_neg httl, if_neg hfull, if_neg (not_or.mpr ⟨httl, nofun⟩), ← hsection]
      exact Function.update_self ..

variable {s : LeaseShard} {maxTTL : Nat}

/-! ## Every call keeps the invariant -/

theorem acquireHead_spec (maxTTL : Nat) (h : WF s) (op : Operation) (now : Time) :
    WF (acquireHead maxTTL s op now).shard ∧ ((acquireHead maxTTL s op now).reply = none →
      (acquireHead maxTTL s op now).shard.find op.key = none) := by
  have hwf := (lockedSection_spec maxTTL { op with kind := .acquire } now h).1
  refine ⟨hwf, fun hnone => ?_⟩
  rcases acquireHead_cases s maxTTL op now with
    ⟨d, -, -, heq⟩ | ⟨id, d, -, -, -, heq⟩ | ⟨id, d, p, -, -, hf, heq⟩ | ⟨hf, heq⟩
  · rw [heq] at hnone
    cases hnone
  · rw [heq] at hnone
    cases hnone
  · rw [heq]
    obtain ⟨-, hview, -⟩ := removeLease_spec h hf
    have hgone := hview op.key
    rw [if_pos rfl] at hgone
    exact view_eq_none.mp hgone
  · rw [heq]
    exact view_eq_none.mp hf

theorem WF.acquireLocked (h : WF s) (op : Operation) (now : Time) (room : Bool) (pool : PoolGet) :
    WF (s.acquireLocked maxTTL op now room pool) := by
  obtain ⟨hwf, habsent⟩ := acquireHead_spec maxTTL h op now
  unfold LeaseShard.acquireLocked
  dsimp only
  split
  · exact hwf
  · rename_i hnone
    split_ifs
    · exact hwf
    · exact (addLease_spec hwf pool _ _ (habsent hnone)).1

theorem WF.call (h : WF s) (c : ShardCall) : WF (s.call maxTTL c) := by
  cases c with
  | acquireLocked op now room pool => exact h.acquireLocked op now room pool
  | renew op now => exact (lockedSection_spec maxTTL { op with kind := .renew } now h).1
  | release op now => exact (lockedSection_spec maxTTL { op with kind := .release } now h).1
  | removeExpiredLeases now => exact (removeExpiredLeases_spec h now).1

theorem WF.calls (h : WF s) (calls : List ShardCall) :
    WF (calls.foldl (LeaseShard.call maxTTL) s) := by
  induction calls generalizing s with
  | nil => exact h
  | cons c rest ih => exact ih (h.call c)

/-! ## What the invariant says -/

/-- The objects that the map holds. -/
def values (s : LeaseShard) : List Nat := s.leases.entries.map Sigma.snd

/-- The entry has expired at `now`. -/
def expired (s : LeaseShard) (now : Time) (key : Nat) : Bool :=
  (s.view key).any fun e => e.2 ≤ now

/-- Map, heap and pool of a shard. -/
structure Represented (s : LeaseShard) : Prop where
  /-- The heap holds exactly the objects that are the values of the map, each once. -/
  same : s.deadlines.Perm s.values ∧ s.deadlines.Nodup
  key : ∀ k p, s.leases.lookup k = some p → (s.mem p).key = k
  heapIndex : ∀ i (h : i < s.deadlines.length), (s.mem s.deadlines[i]).heapIndex = i
  /-- No parent expires after its children. -/
  ordered : ∀ i j (hi : i < s.deadlines.length) (hj : j < s.deadlines.length),
    j = 2 * i + 1 ∨ j = 2 * i + 2 →
    (s.mem s.deadlines[i]).deadline ≤ (s.mem s.deadlines[j]).deadline
  /-- No object in the pool is in the map or in the heap. -/
  pool : ∀ p ∈ s.leasePool, p ∉ s.values ∧ p ∉ s.deadlines

/-- What `removeExpiredLeases(now)` does. -/
structure Purged (now : Time) (s : LeaseShard) (r : LeaseShard × Nat) : Prop where
  /-- What is left is represented as before. -/
  represented : r.1.Represented
  /-- The loop has ended: its condition does not hold any more. -/
  ended : ¬ (r.1.deadlines ≠ [] ∧ r.1.deadlineAt 0 ≤ now)
  /-- Exactly what has expired is gone. -/
  entries : ∀ key, r.1.view key = if s.expired now key then none else s.view key
  count : r.2 = s.leases.keys.countP (s.expired now)

theorem mem_values {p : Nat} : p ∈ s.values ↔ ∃ k, s.leases.lookup k = some p := by
  unfold values
  rw [List.mem_map]
  constructor
  · rintro ⟨⟨k, p'⟩, hmem, rfl⟩
    exact ⟨k, AList.mem_lookup_iff.mpr hmem⟩
  · rintro ⟨k, hk⟩
    exact ⟨⟨k, p⟩, AList.mem_lookup_iff.mp hk, rfl⟩

theorem WF.values_nodup (h : WF s) : s.values.Nodup := by
  unfold values
  refine List.Nodup.map_on ?_ (List.Nodup.of_map Sigma.fst s.leases.nodupKeys)
  rintro ⟨k, p⟩ hk ⟨k', p'⟩ hk' (rfl : p = p')
  have hkey := (h.stored k p (AList.mem_lookup_iff.mpr hk)).1
  have hkey' := (h.stored k' p (AList.mem_lookup_iff.mpr hk')).1
  rw [hkey] at hkey'
  rw [hkey']

theorem WF.represented (h : WF s) : s.Represented where
  same := by
    refine ⟨?_, h.indexed.nodup⟩
    refine (List.perm_ext_iff_of_nodup h.indexed.nodup h.values_nodup).mpr fun p => ?_
    rw [mem_values]
    exact ⟨fun hp => ⟨_, h.listed p hp⟩, fun ⟨k, hk⟩ => (h.stored k p hk).2⟩
  key k p hk := (h.stored k p hk).1
  heapIndex i hi := by
    have hindex := h.indexed i hi
    rwa [at_eq_getElem hi] at hindex
  ordered i j hi hj hij := by
    have horder := h.ordered j (by omega) hj
    have hparent : (j - 1) / 2 = i := by omega
    rw [hparent] at horder
    unfold deadlineAt at horder
    rwa [at_eq_getElem hi, at_eq_getElem hj] at horder
  pool p hp := by
    have hfree := (h.pool_free p hp).2
    refine ⟨fun hmem => ?_, hfree⟩
    obtain ⟨k, hk⟩ := mem_values.mp hmem
    exact hfree (h.stored k p hk).2

theorem expired_of_view {now : Time} {key : Nat} {id : LeaseID} {d : Time}
    (h : s.view key = some (id, d)) : s.expired now key = decide (d ≤ now) := by
  unfold expired
  rw [h, Option.any_some]

theorem liveAt_view (now : Time) (key : Nat) :
    liveAt now (s.view key) = if s.expired now key then none else s.view key := by
  cases hv : s.view key with
  | none => simp
  | some e =>
    obtain ⟨id, d⟩ := e
    rw [liveAt_some, expired_of_view hv]
    by_cases hd : d ≤ now
    · simp [hd]
    · simp [hd, not_le.mp hd]

theorem WF.purged (h : WF s) (now : Time) : Purged now s (s.removeExpiredLeases now) := by
  obtain ⟨hwf, hview, hsize⟩ := removeExpiredLeases_spec h now
  have hentries : ∀ key, (s.removeExpiredLeases now).1.view key =
      if s.expired now key then none else s.view key := fun key => by
    rw [hview key, liveAt_view]
  refine ⟨hwf.represented, ?_, hentries, ?_⟩
  · rintro ⟨hne, hle⟩
    -- the root of a heap that is not empty has not expired
    have h0 := List.length_pos_of_ne_nil hne
    have hfind := hwf.listed _ (at_mem h0)
    have hroot := view_of_find hfind
    rw [hview, liveAt, Option.filter_eq_some_iff] at hroot
    exact absurd hle (not_le.mpr (of_decide_eq_true hroot.2))
  · have hkeys : (s.removeExpiredLeases now).1.leases.keys.Perm
        (s.leases.keys.filter fun key => !s.expired now key) := by
      refine (List.perm_ext_iff_of_nodup (AList.keys_nodup _)
        ((AList.keys_nodup _).filter _)).mpr fun key => ?_
      rw [mem_keys_iff, List.mem_filter, mem_keys_iff, hentries]
      by_cases hexp : s.expired now key
      · simp [hexp]
      · simp [hexp]
    have hlen := hkeys.length_eq
    have hsplit := List.length_eq_countP_add_countP (s.expired now) (l := s.leases.keys)
    rw [← List.countP_eq_length_filter] at hlen
    unfold size at hsize
    have hnot : List.countP (fun a => decide ¬ s.expired now a = true) s.leases.keys =
        List.countP (fun key => !s.expired now key) s.leases.keys := by
      congr 1
      funext key
      simp
    omega

/-- **The representation of a shard** in every state that calls can reach, with what
`removeExpiredLeases` does in such a state. -/
theorem shard_represented (maxTTL : Nat) (calls : List ShardCall) :
    Represented (calls.foldl (call maxTTL) empty) ∧
      ∀ now, Purged now (calls.foldl (call maxTTL) empty)
        ((calls.foldl (call maxTTL) empty).removeExpiredLeases now) := by
  have h : WF (calls.foldl (call maxTTL) empty) := wf_empty.calls calls
  exact ⟨h.represented, h.purged⟩

end LeaseShard

end RedLease.Server
