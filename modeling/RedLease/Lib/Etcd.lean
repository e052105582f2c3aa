import Mathlib.Data.List.Basic
import Mathlib.Logic.Function.Basic
import Mathlib.Order.Nat
import Mathlib.Tactic.SplitIfs

/-!
# A key-value service with leases

The part of etcd that a program sees through leases, transactions that create a key, reads and
watches. The service is a parameter: `Service` has its states, what it answers and what can be seen
of a state, and `Documented` lists the promises on which a program relies. Nothing is said about when
a lease expires, nor about when a request is refused.

* **`Bound`**: as long as the lease lives, the key has this value under it; every move keeps this,
  and a key is bound to one live lease (`Bound.unique`).
* **`Since`**: a key that was there at a revision is there still, or a watch from behind that revision
  has its deletion; every move keeps this. So a watch that starts behind a read misses no deletion.
* **`documented_store`**: a small store in memory keeps the promises.
-/

namespace RedLease.Lib.Etcd

/-- A key as it is stored. -/
structure Entry (ν : Type) where
  value : ν
  createRevision : Nat
  lease : Nat

/-- A request. The transaction puts the key with the lease if the key has no create revision. -/
inductive Request (κ ν : Type) where
  | grant (ttl : Nat)
  | txn (key : κ) (value : ν) (lease : Nat)
  | revoke (lease : Nat)
  | keepAlive (lease : Nat)
  | get

/-- An answer; `refused` is an error, such as that there is no such lease. -/
inductive Reply (κ : Type) where
  | granted (lease : Nat)
  | committed (succeeded : Bool)
  | revoked
  | alive (ttl : Nat)
  | snapshot (revision : Nat) (present : κ → Bool)
  | refused

/-- A service with its states. What happens in it without a request, such as that a lease expires, is
an `Event`. -/
structure Service (κ ν : Type) where
  State : Type
  Event : Type
  serve : State → Request κ ν → State × Reply κ
  happen : State → Event → State
  kv : State → κ → Option (Entry ν)
  /-- The lease ID has been given to a client. -/
  granted : State → Nat → Bool
  /-- The lease is neither revoked nor expired. -/
  live : State → Nat → Bool
  revision : State → Nat
  /-- A watch from behind the revision has a deletion of the key to deliver. -/
  deletedAfter : State → Nat → κ → Bool

variable {κ ν : Type}

/-- The service serves a request, or something happens in it. -/
inductive Service.Moves (e : Service κ ν) (s : e.State) : e.State → Prop
  | serve (req : Request κ ν) : Moves e s (e.serve s req).1
  | happen (x : e.Event) : Moves e s (e.happen s x)

/-- **What the service promises.** -/
structure Documented (e : Service κ ν) : Prop where
  /-- A lease ID is not given to two clients. -/
  grant : ∀ s ttl id, (e.serve s (.grant ttl)).2 = .granted id →
    e.granted s id = false ∧ e.granted (e.serve s (.grant ttl)).1 id = true
  /-- A lease ID stays given. -/
  granted : ∀ {s s' id}, e.Moves s s' → e.granted s id = true → e.granted s' id = true
  /-- A lease that is revoked or expired does not live again. -/
  live : ∀ {s s' id}, e.Moves s s' → e.granted s id = true → e.live s' id = true →
    e.live s id = true
  /-- A transaction that succeeds has put the key with the lease. -/
  txn : ∀ s k v id, (e.serve s (.txn k v id)).2 = .committed true →
    e.granted (e.serve s (.txn k v id)).1 id = true ∧
      ∃ r, e.kv (e.serve s (.txn k v id)).1 k = some ⟨v, r, id⟩
  /-- A key goes only with its lease, and no transaction puts one that is there. -/
  kept : ∀ {s s' k x}, e.Moves s s' → e.kv s k = some x → e.live s' x.lease = true →
    e.kv s' k = some x
  /-- The revision does not go back. -/
  revision : ∀ {s s'}, e.Moves s s' → e.revision s ≤ e.revision s'
  /-- A read shows the keys of one revision. -/
  snapshot : ∀ s r present, (e.serve s .get).2 = .snapshot r present →
    r ≤ e.revision (e.serve s .get).1 ∧ ∀ k, present k = true →
      ∃ x, e.kv (e.serve s .get).1 k = some x ∧ x.createRevision ≤ r
  /-- A key that goes is deleted in a new revision, and watches have the deletion. -/
  deleted : ∀ {s s' k x r}, e.Moves s s' → e.kv s k = some x → r ≤ e.revision s →
    e.kv s' k = some x ∨ e.deletedAfter s' r k = true
  /-- The history that a watch reads is not compacted; where it is, the watch fails. -/
  history : ∀ {s s' r k}, e.Moves s s' → e.deletedAfter s r k = true →
    e.deletedAfter s' r k = true

variable {e : Service κ ν} {s s' : e.State}

/-! ## A key under a lease -/

/-- As long as the lease lives, the key has this value under it. -/
structure Bound (e : Service κ ν) (s : e.State) (k : κ) (v : ν) (id : Nat) : Prop where
  granted : e.granted s id = true
  entry : e.live s id = true → ∃ r, e.kv s k = some ⟨v, r, id⟩

theorem Bound.moves {k : κ} {v : ν} {id : Nat} (h : Bound e s k v id) (he : Documented e)
    (hm : e.Moves s s') : Bound e s' k v id := by
  refine ⟨he.granted hm h.granted, fun hlive => ?_⟩
  obtain ⟨r, hr⟩ := h.entry (he.live hm h.granted hlive)
  exact ⟨r, he.kept hm hr hlive⟩

/-- A transaction that succeeds binds the key. -/
theorem bound_txn (he : Documented e) {k : κ} {v : ν} {id : Nat}
    (h : (e.serve s (.txn k v id)).2 = .committed true) :
    Bound e (e.serve s (.txn k v id)).1 k v id :=
  ⟨(he.txn s k v id h).1, fun _ => (he.txn s k v id h).2⟩

/-- **A key is bound to one live lease.** -/
theorem Bound.unique {k : κ} {v v' : ν} {id id' : Nat} (h : Bound e s k v id)
    (h' : Bound e s k v' id') (hl : e.live s id = true) (hl' : e.live s id' = true) : id = id' := by
  obtain ⟨r, hr⟩ := h.entry hl
  obtain ⟨r', hr'⟩ := h'.entry hl'
  cases hr.symm.trans hr'
  rfl

/-! ## What a watch sees -/

/-- The key was there at revision `r`, and is there still or was deleted later. -/
structure Since (e : Service κ ν) (s : e.State) (r : Nat) (k : κ) : Prop where
  le : r ≤ e.revision s
  still : e.deletedAfter s r k = true ∨ ∃ x, e.kv s k = some x ∧ x.createRevision ≤ r

theorem Since.moves {r : Nat} {k : κ} (h : Since e s r k) (he : Documented e)
    (hm : e.Moves s s') : Since e s' r k := by
  refine ⟨h.le.trans (he.revision hm), ?_⟩
  rcases h.still with hdel | ⟨x, hx, hle⟩
  · exact Or.inl (he.history hm hdel)
  · rcases he.deleted hm hx h.le with hx' | hdel
    · exact Or.inr ⟨x, hx', hle⟩
    · exact Or.inl hdel

theorem since_get (he : Documented e) {r : Nat} {present : κ → Bool}
    (h : (e.serve s .get).2 = .snapshot r present) {k : κ} (hk : present k = true) :
    Since e (e.serve s .get).1 r k :=
  ⟨(he.snapshot s r present h).1, Or.inr ((he.snapshot s r present h).2 k hk)⟩

/-! ## A store in memory -/

/-- Leases are numbered, and `dropped` has those that are revoked or expired. -/
structure Store (κ ν : Type) where
  kv : κ → Option (Entry ν)
  granted : Nat
  dropped : List Nat
  revision : Nat
  /-- The revision in which the key was last deleted. -/
  deleted : κ → Nat
  created_le : ∀ k x, kv k = some x → x.createRevision ≤ revision
  deleted_le : ∀ k, deleted k ≤ revision

namespace Store

/-- A store that is still empty. -/
def empty : Store κ ν where
  kv _ := none
  granted := 0
  dropped := []
  revision := 1
  deleted _ := 0
  created_le := by rintro k x ⟨⟩
  deleted_le _ := Nat.zero_le _

variable (s : Store κ ν)

/-- The lease is granted and has not ended. -/
def live (id : Nat) : Bool := id < s.granted && !s.dropped.contains id

/-- A lease is granted. -/
def grant : Store κ ν := { s with granted := s.granted + 1 }

/-- A key is put, under the lease `id`. -/
def put [DecidableEq κ] (k : κ) (v : ν) (id : Nat) : Store κ ν :=
  { s with
    kv := Function.update s.kv k (some ⟨v, s.revision + 1, id⟩)
    revision := s.revision + 1
    created_le := by
      intro k' x hx
      rw [Function.update_apply] at hx
      split_ifs at hx
      · cases hx
        exact le_rfl
      · exact (s.created_le k' x hx).trans (Nat.le_succ _)
    deleted_le := fun k' => (s.deleted_le k').trans (Nat.le_succ _) }

/-- A lease is revoked or expires, and its keys are deleted in one revision. -/
def drop (id : Nat) : Store κ ν :=
  { s with
    kv := fun k => (s.kv k).filter (·.lease != id)
    dropped := id :: s.dropped
    revision := s.revision + 1
    deleted := fun k => if (s.kv k).any (·.lease == id) then s.revision + 1 else s.deleted k
    created_le := by
      intro k x hx
      exact (s.created_le k x (Option.filter_eq_some_iff.mp hx).1).trans (Nat.le_succ _)
    deleted_le := by
      intro k
      split_ifs
      · exact le_rfl
      · exact (s.deleted_le k).trans (Nat.le_succ _) }

/-- What the store answers. -/
def serve [DecidableEq κ] : Request κ ν → Store κ ν × Reply κ
  | .grant _ => (s.grant, .granted s.granted)
  | .txn k v id =>
    if (s.kv k).isSome then (s, .committed false)
    else if s.live id then (s.put k v id, .committed true) else (s, .refused)
  | .revoke id => if s.live id then (s.drop id, .revoked) else (s, .refused)
  | .keepAlive id => (s, if s.live id then .alive 3 else .refused)
  | .get => (s, .snapshot s.revision fun k => (s.kv k).isSome)

end Store

/-- The store as a service, in which any lease can expire. -/
def store [DecidableEq κ] : Service κ ν where
  State := Store κ ν
  Event := Nat
  serve s := s.serve
  happen := Store.drop
  kv := Store.kv
  granted s id := id < s.granted
  live := Store.live
  revision := Store.revision
  deletedAfter s r k := r < s.deleted k

/-- All that a move of the store can do. -/
inductive Store.Change [DecidableEq κ] (s : Store κ ν) : Store κ ν → Prop
  | same : Change s s
  | granted : Change s s.grant
  | put (k : κ) (v : ν) (id : Nat) (hk : s.kv k = none) : Change s (s.put k v id)
  | dropped (id : Nat) : Change s (s.drop id)

variable [DecidableEq κ]

theorem store_change {s s' : (store : Service κ ν).State} (h : store.Moves s s') :
    Store.Change s s' := by
  cases h with
  | serve req =>
    show Store.Change s (Store.serve s req).1
    cases req with
    | grant ttl => exact .granted
    | txn k v id =>
      dsimp only [Store.serve]
      split_ifs with hk hl
      · exact .same
      · exact .put k v id (Option.not_isSome_iff_eq_none.mp hk)
      · exact .same
    | revoke id =>
      dsimp only [Store.serve]
      split_ifs
      · exact .dropped id
      · exact .same
    | keepAlive id => exact .same
    | get => exact .same
  | happen id => exact .dropped id

theorem put_kv {s : Store κ ν} {k k' : κ} {x : Entry ν} (hk : s.kv k' = none)
    (hx : s.kv k = some x) (v : ν) (id : Nat) : (s.put k' v id).kv k = some x := by
  have hne : k ≠ k' := by
    rintro rfl
    cases hk.symm.trans hx
  exact (Function.update_of_ne hne _ _).trans hx

theorem documented_store : Documented (store : Service κ ν) where
  grant s ttl id h := by
    cases h
    exact ⟨decide_eq_false (Nat.lt_irrefl _), decide_eq_true (Nat.lt_succ_self _)⟩
  granted hm h := by
    cases store_change hm with
    | granted => exact decide_eq_true (Nat.lt_succ_of_lt (of_decide_eq_true h))
    | _ => exact h
  live hm h hl := by
    cases store_change hm <;> simp_all [store, Store.live, Store.grant, Store.put, Store.drop]
  txn s k v id h := by
    dsimp only [store, Store.serve] at h ⊢
    split_ifs at h ⊢ with hk hl
    · cases h
    · exact ⟨(Bool.and_eq_true_iff.mp hl).1, _, Function.update_self ..⟩
  kept {s s' k x} hm hx hl := by
    cases store_change hm with
    | put k' v id hk => exact put_kv hk hx v id
    | dropped id =>
      refine Option.filter_eq_some_iff.mpr ⟨hx, ?_⟩
      simp [store, Store.live, Store.drop] at hl
      simpa using hl.2.1
    | _ => exact hx
  revision hm := by
    cases store_change hm with
    | put k v id hk | dropped id => exact Nat.le_succ _
    | _ => exact le_rfl
  snapshot s r present h := by
    cases h
    refine ⟨le_rfl, fun k hk => ?_⟩
    obtain ⟨x, hx⟩ := Option.isSome_iff_exists.mp hk
    exact ⟨x, hx, s.created_le k x hx⟩
  deleted {s s' k x r} hm hx hr := by
    cases store_change hm with
    | put k' v id hk => exact Or.inl (put_kv hk hx v id)
    | dropped id =>
      change s.kv k = some x at hx
      by_cases hid : x.lease = id
      · have hlt : r < s.revision + 1 := Nat.lt_succ_of_le hr
        refine Or.inr (decide_eq_true ?_)
        simpa [Store.drop, hx, hid] using hlt
      · exact Or.inl (Option.filter_eq_some_iff.mpr ⟨hx, by simpa using hid⟩)
    | _ => exact Or.inl hx
  history {s s' r k} hm h := by
    cases store_change hm with
    | dropped id =>
      have hlt : r < s.deleted k := of_decide_eq_true h
      refine decide_eq_true ?_
      show r < if _ then _ else _
      split_ifs
      · exact hlt.trans_le ((s.deleted_le k).trans (Nat.le_succ _))
      · exact hlt
    | _ => exact h

end RedLease.Lib.Etcd
