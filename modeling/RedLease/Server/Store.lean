import RedLease.Lib.Family
import RedLease.Server.Operations

/-!
# The sharded store, one operation at a time

`apply`, `acquire`, `renew`, `release`, `removeExpiredKeys`, `reserveKey` and `releaseKeys` of
`server/state.go` on the whole store (shards and the shared `keys` counter), each run to completion:
the compare-and-swap loops succeed at once. Expired entries stay in map, heap and counter until an
operation happens to touch them or a capacity-triggered or background cleanup removes them.

`Reference` is the machine the store is meant to be: one finite map from which every expired entry
is dropped before each operation. That the store refines it is proved in `Refinement.lean`.
-/

namespace RedLease.Server

open LeaseShard

/-- The lease state of a `Server`. -/
structure Store (n : Nat) where
  keys : Nat
  shards : Fin n → LeaseShard
  /-- `releaseKeys` found fewer reservations than it had to release and called `fail`. -/
  failed : Bool

namespace Store

variable {n : Nat}

/-- A new store. -/
def init (n : Nat) : Store n := ⟨0, fun _ => LeaseShard.empty, false⟩

/-- Shard `i` becomes `shard`. -/
def setShard (s : Store n) (i : Fin n) (shard : LeaseShard) : Store n :=
  { s with shards := Function.update s.shards i shard }

/-- `reserveKey`. -/
def reserveKey (maxKeys : Nat) (s : Store n) : Store n × Bool :=
  if maxKeys ≤ s.keys then (s, false) else ({ s with keys := s.keys + 1 }, true)

/-- `releaseKeys`. -/
def releaseKeys (s : Store n) (count : Nat) : Store n :=
  if count = 0 then s
  else if s.keys < count then { s with failed := true }
  else { s with keys := s.keys - count }

/-- The loop of `removeExpiredKeys` over the shards, with the deletions so far. -/
def removeExpiredKeysLoop (now : Time) : List (Fin n) → Store n → Nat → Store n × Nat
  | [], s, deleted => (s, deleted)
  | i :: rest, s, deleted =>
    let r := (s.shards i).removeExpiredLeases now
    removeExpiredKeysLoop now rest (s.setShard i r.1) (deleted + r.2)

/-- `removeExpiredKeys`: the deletions of all shards are released together at the end. -/
def removeExpiredKeys (s : Store n) (now : Time) : Store n :=
  let r := removeExpiredKeysLoop now (List.finRange n) s 0
  r.1.releaseKeys r.2

/-- The store after a locked section on shard `i` and the `releaseKeys` that follows a removal. -/
def runSection (s : Store n) (i : Fin n) (l : Locked) : Store n :=
  (s.setShard i l.shard).releaseKeys l.removed

/-- `acquireLocked` after the removal of an expired entry. -/
def acquireTail (cfg : Config) (pool : PoolGet) (s : Store n) (i : Fin n) (op : Operation)
    (now : Time) : Store n × Option Response :=
  let ttl := effectiveTTLMS cfg.maxTTL op
  if ttl = 0 then (s, some (acquireResponse op.requestID LeaseStatus.ok 0))
  else
    let r := s.reserveKey cfg.maxKeys
    if r.2 then
      (r.1.setShard i ((r.1.shards i).addLease pool op.key op.leaseID (now + ttl * millisecond)),
        some (acquireResponse op.requestID LeaseStatus.ok ttl))
    else (r.1, none)

/-- `acquireLocked`; no response means that the capacity is full. -/
def acquireLocked (cfg : Config) (pool : PoolGet) (s : Store n) (i : Fin n) (op : Operation)
    (now : Time) : Store n × Option Response :=
  let l := acquireHead cfg.maxTTL (s.shards i) op now
  let s := s.runSection i l
  match l.reply with
  | some r => (s, some r)
  | none => acquireTail cfg pool s i op now

/-- `acquire`: one cleanup of all shards and one more attempt when the capacity is full. -/
def acquire (cfg : Config) (pool : PoolGet) (s : Store n) (i : Fin n) (op : Operation)
    (now : Time) : Store n × Response :=
  match acquireLocked cfg pool s i op now with
  | (s, some r) => (s, r)
  | (s, none) =>
    match acquireLocked cfg pool (s.removeExpiredKeys now) i op now with
    | (s, some r) => (s, r)
    | (s, none) => (s, acquireResponse op.requestID LeaseStatus.keyLimitReached 0)

/-- `renew`. -/
def renew (cfg : Config) (s : Store n) (i : Fin n) (op : Operation) (now : Time) :
    Store n × Response :=
  let l := renewBody cfg.maxTTL (s.shards i) op now
  (s.runSection i l, l.reply.getD (renewResponse op.requestID LeaseStatus.stale 0))

/-- `release`. -/
def release (s : Store n) (i : Fin n) (op : Operation) (now : Time) : Store n × Response :=
  let l := releaseBody (s.shards i) op now
  (s.runSection i l, l.reply.getD (releaseResponse op.requestID LeaseStatus.ok))

/-- `apply` at the time `now` that it reads. -/
def apply (cfg : Config) (pool : PoolGet) (s : Store n) (i : Fin n) (op : Operation)
    (now : Time) : Store n × Response :=
  match op.kind with
  | .acquire => s.acquire cfg pool i op now
  | .renew => s.renew cfg i op now
  | .release => s.release i op now

end Store

/-! ## The reference machine -/

/-- The reference state: one finite map from keys to lease ID and deadline. -/
abbrev Reference := AList fun _ : Nat => LeaseID × Time

namespace Reference

/-- Drops every entry with deadline at most `now`. -/
def dropExpired (m : Reference) (now : Time) : Reference where
  entries := m.entries.filter fun e => decide (now < e.2.2)
  nodupKeys := List.NodupKeys.sublist List.filter_sublist m.nodupKeys

/-- The number of entries. -/
def size (m : Reference) : Nat := m.keys.length

/-- The answer and the next map once nothing in the map is expired. -/
def answer (maxTTL maxKeys : Nat) (m : Reference) (op : Operation) (now : Time) :
    Reference × Response :=
  let ttl := min op.requestedTTLMS maxTTL
  match op.kind, m.lookup op.key with
  | .acquire, some (id, d) =>
    if id = op.leaseID then
      (m, acquireResponse op.requestID LeaseStatus.alreadyOwned ((d - now) / millisecond))
    else (m, acquireResponse op.requestID LeaseStatus.busy 0)
  | .acquire, none =>
    if ttl = 0 then (m, acquireResponse op.requestID LeaseStatus.ok 0)
    else if maxKeys ≤ m.size then
      (m, acquireResponse op.requestID LeaseStatus.keyLimitReached 0)
    else
      (m.insert op.key (op.leaseID, now + ttl * millisecond),
        acquireResponse op.requestID LeaseStatus.ok ttl)
  | .renew, some (id, d) =>
    if id = op.leaseID then
      let d' := max d (now + ttl * millisecond)
      (m.insert op.key (id, d'),
        renewResponse op.requestID LeaseStatus.ok ((d' - now) / millisecond))
    else (m, renewResponse op.requestID LeaseStatus.stale 0)
  | .renew, none => (m, renewResponse op.requestID LeaseStatus.stale 0)
  | .release, some (id, _) =>
    (if id = op.leaseID then m.erase op.key else m,
      releaseResponse op.requestID LeaseStatus.ok)
  | .release, none => (m, releaseResponse op.requestID LeaseStatus.ok)

/-- **One operation of the reference machine.** -/
def apply (maxTTL maxKeys : Nat) (m : Reference) (op : Operation) (now : Time) :
    Reference × Response :=
  (m.dropExpired now).answer maxTTL maxKeys op now

theorem lookup_dropExpired (m : Reference) (now : Time) (k : Nat) :
    (m.dropExpired now).lookup k = liveAt now (m.lookup k) := by
  apply Option.ext
  intro e
  rw [← Option.mem_def, AList.mem_lookup_iff, liveAt, Option.filter_eq_some_iff, ← Option.mem_def,
    AList.mem_lookup_iff]
  simp [dropExpired]

theorem mem_keys_iff {m : Reference} {k : Nat} : k ∈ m.keys ↔ m.lookup k ≠ none := by
  rw [← AList.mem_keys, ← AList.lookup_isSome, Option.isSome_iff_ne_none]

end Reference

end RedLease.Server
