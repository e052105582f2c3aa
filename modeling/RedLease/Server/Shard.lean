import Mathlib.Data.List.AList
import Mathlib.Data.List.Perm.Basic
import RedLease.Lib.Heap
import RedLease.Protocol

/-!
# One lease shard: map, deadline heap and object pool

`leaseShard` of `server/state.go`. Lease objects live behind pointers: `mem` is the memory, and the
map, the deadline heap and the pool hold pointers into it, so that an update through one of them is
seen through the others, as in the source. `heapIndex` is maintained by `Swap`, `Push` and `Pop` and
read by `removeLease` and by the `heap.Fix` of a renewal. An index outside the heap, on which the
source panics, sets `panicked`.

* `WF`: heap and map hold the same objects, each under its own key and at its own index, the heap is
  ordered by deadline, and the pool shares no object with them.
* `view`, `size`: what the shard stores, as a partial map from keys to lease ID and deadline, and
  how many entries that is.
* One specification lemma for each operation (`addLease_spec`, `removeLease_spec`, `extend_spec`,
  `removeExpiredLeases_spec`): it keeps `WF`, and what it does to `view` and `size`.
-/

namespace RedLease.Server

open RedLease.Lib

/-- `lease`. -/
structure Lease where
  key : Nat
  id : LeaseID
  deadline : Time
  heapIndex : Int
  deriving DecidableEq, Repr

/-- The zero value of `lease`, which `recycleLease` stores. -/
def Lease.zero : Lease := ⟨0, ⟨0, 0, 0⟩, 0, 0⟩

/-- What `sync.Pool.Get` may do: return an object that was put into the pool, or nothing. -/
structure PoolGet where
  get : List Nat → Option Nat
  mem : ∀ {l p}, get l = some p → p ∈ l

/-- The pool returns nothing and a new object is allocated. -/
def PoolGet.fresh : PoolGet := ⟨fun _ => none, nofun⟩

/-- `leaseShard`, without the queue and the lock, which belong to the worker. -/
structure LeaseShard where
  /-- The object behind each pointer. -/
  mem : Nat → Lease
  /-- No pointer from here on has been allocated. -/
  fresh : Nat
  leases : AList fun _ : Nat => Nat
  deadlines : List Nat
  leasePool : List Nat
  /-- A heap operation was called with an index outside the heap. -/
  panicked : Bool

namespace LeaseShard

/-- A shard as `New` makes it. -/
def empty : LeaseShard := ⟨fun _ => Lease.zero, 0, ∅, [], [], false⟩

/-! ## `leaseDeadlineHeap` -/

/-- The pointer at position `i` of the heap. -/
def at_ (s : LeaseShard) (i : Nat) : Nat := s.deadlines.getD i 0

/-- The deadline of the object at position `i`. -/
def deadlineAt (s : LeaseShard) (i : Nat) : Time := (s.mem (s.at_ i)).deadline

/-- `Swap`. -/
def swap (s : LeaseShard) (i j : Nat) : LeaseShard :=
  let mem := Function.update s.mem (s.at_ j) { s.mem (s.at_ j) with heapIndex := i }
  { s with
    deadlines := (s.deadlines.set i (s.at_ j)).set j (s.at_ i)
    mem := Function.update mem (s.at_ i) { mem (s.at_ i) with heapIndex := j } }

/-- `Len`, `Less` and `Swap`. -/
def heapInterface : Heap.Interface LeaseShard where
  len s := s.deadlines.length
  less s i j := decide (s.deadlineAt i < s.deadlineAt j)
  swap := swap

/-- `Pop` of `leaseDeadlineHeap`: drops the last element. -/
def popLast (s : LeaseShard) : LeaseShard :=
  let p := s.at_ (s.deadlines.length - 1)
  { s with
    mem := Function.update s.mem p { s.mem p with heapIndex := -1 }
    deadlines := s.deadlines.dropLast }

/-- `heap.Push`. -/
def heapPush (s : LeaseShard) (p : Nat) : LeaseShard :=
  let s := { s with
    mem := Function.update s.mem p { s.mem p with heapIndex := s.deadlines.length }
    deadlines := s.deadlines ++ [p] }
  Heap.up heapInterface s (s.deadlines.length - 1)

/-- `heap.Remove`; `heap.Pop` is the removal of position `0`. -/
def heapRemove (s : LeaseShard) (i : Int) : LeaseShard :=
  let n := s.deadlines.length - 1
  if 0 ≤ i ∧ i < s.deadlines.length then
    if i.toNat = n then s.popLast
    else (Heap.sift heapInterface (s.swap i.toNat n) i.toNat n).popLast
  else { s with panicked := true }

/-- `heap.Fix`. -/
def heapFix (s : LeaseShard) (i : Int) : LeaseShard :=
  if 0 ≤ i ∧ i < s.deadlines.length then
    Heap.sift heapInterface s i.toNat s.deadlines.length
  else { s with panicked := true }

/-! ## The shard's operations -/

/-- `recycleLease`. -/
def recycleLease (s : LeaseShard) (p : Nat) : LeaseShard :=
  { s with mem := Function.update s.mem p Lease.zero, leasePool := p :: s.leasePool }

/-- `addLease`. -/
def addLease (pool : PoolGet) (s : LeaseShard) (key : Nat) (id : LeaseID) (deadline : Time) :
    LeaseShard :=
  let got := pool.get s.leasePool
  let p := got.getD s.fresh
  let s := match got with
    | some p => { s with leasePool := s.leasePool.erase p }
    | none => { s with fresh := s.fresh + 1 }
  heapPush { s with
    mem := Function.update s.mem p ⟨key, id, deadline, -1⟩
    leases := s.leases.insert key p } p

/-- `removeLease`. -/
def removeLease (s : LeaseShard) (p : Nat) : LeaseShard :=
  let s' := { s with leases := s.leases.erase (s.mem p).key }
  (s'.heapRemove (s'.mem p).heapIndex).recycleLease p

/-- `current.deadline = candidate; heap.Fix(&shard.deadlines, current.heapIndex)` of `renew`. -/
def extend (s : LeaseShard) (p : Nat) (deadline : Time) : LeaseShard :=
  let s' := { s with mem := Function.update s.mem p { s.mem p with deadline := deadline } }
  s'.heapFix (s'.mem p).heapIndex

/-- The body of the loop of `removeExpiredLeases`: `heap.Pop`, `delete` and `recycleLease`. -/
def removeRoot (s : LeaseShard) : LeaseShard :=
  let p := s.at_ 0
  let s' := s.heapRemove 0
  { s' with leases := s'.leases.erase (s'.mem p).key }.recycleLease p

/-- The loop of `removeExpiredLeases`, with the iterations left. -/
def removeExpiredLoop (now : Time) : Nat → LeaseShard → Nat → LeaseShard × Nat
  | 0, s, deleted => (s, deleted)
  | fuel + 1, s, deleted =>
    if s.deadlines ≠ [] ∧ s.deadlineAt 0 ≤ now then
      removeExpiredLoop now fuel s.removeRoot (deleted + 1)
    else (s, deleted)

/-- `removeExpiredLeases`: each iteration pops one element, so the heap's length bounds them. -/
def removeExpiredLeases (s : LeaseShard) (now : Time) : LeaseShard × Nat :=
  removeExpiredLoop now s.deadlines.length s 0

/-- `shard.leases[key]`: the object stored for `key`, through its pointer. -/
def find (s : LeaseShard) (key : Nat) : Option Nat := s.leases.lookup key

/-! ## What a shard stores -/

/-- The stored lease ID and deadline of each key. -/
def view (s : LeaseShard) (key : Nat) : Option (LeaseID × Time) :=
  (s.find key).map fun p => ((s.mem p).id, (s.mem p).deadline)

/-- `len(shard.leases)`. -/
def size (s : LeaseShard) : Nat := s.leases.keys.length

/-- The heap positions agree with the objects' `heapIndex`. -/
def Indexed (s : LeaseShard) : Prop :=
  ∀ i, i < s.deadlines.length → (s.mem (s.at_ i)).heapIndex = i

/-- **The representation invariant of a shard.** -/
structure WF (s : LeaseShard) : Prop where
  /-- Every object knows its heap position. -/
  indexed : s.Indexed
  /-- A stored object carries its own key and is in the heap. -/
  stored : ∀ k p, s.leases.lookup k = some p → (s.mem p).key = k ∧ p ∈ s.deadlines
  /-- An object in the heap is stored under its key. -/
  listed : ∀ p ∈ s.deadlines, s.leases.lookup (s.mem p).key = some p
  /-- No parent expires after its child. -/
  ordered : Heap.Ordered s.deadlineAt s.deadlines.length
  /-- Every object in the heap was allocated. -/
  allocated : ∀ p ∈ s.deadlines, p < s.fresh
  /-- The pool holds allocated objects, each once, and none that is in use. -/
  pool_nodup : s.leasePool.Nodup
  pool_free : ∀ p ∈ s.leasePool, p < s.fresh ∧ p ∉ s.deadlines
  /-- No heap operation was called with an index outside the heap. -/
  safe : s.panicked = false

theorem wf_empty : WF empty where
  indexed := fun i hi => absurd hi (Nat.not_lt_zero i)
  stored := fun k p h => by simp [empty] at h
  listed := fun p h => by simp [empty] at h
  ordered := fun m _ hm => absurd hm (Nat.not_lt_zero m)
  allocated := fun p h => by simp [empty] at h
  pool_nodup := List.nodup_nil
  pool_free := fun p h => by simp [empty] at h
  safe := rfl

@[simp] theorem view_empty (k : Nat) : view empty k = none := by
  simp [view, find, empty]

@[simp] theorem size_empty : size empty = 0 := rfl

/-! ## Exchanges move heap positions only -/

variable {s t : LeaseShard}

/-- `t` is `s` with the heap rearranged and the objects' `heapIndex` fields rewritten. -/
structure Rearranged (s t : LeaseShard) : Prop where
  leases : t.leases = s.leases
  leasePool : t.leasePool = s.leasePool
  fresh : t.fresh = s.fresh
  panicked : t.panicked = s.panicked
  key : ∀ p, (t.mem p).key = (s.mem p).key
  id : ∀ p, (t.mem p).id = (s.mem p).id
  deadline : ∀ p, (t.mem p).deadline = (s.mem p).deadline
  perm : t.deadlines.Perm s.deadlines

theorem Rearranged.refl (s : LeaseShard) : Rearranged s s :=
  ⟨rfl, rfl, rfl, rfl, fun _ => rfl, fun _ => rfl, fun _ => rfl, List.Perm.refl _⟩

theorem Rearranged.trans {u : LeaseShard} (h : Rearranged s t) (h' : Rearranged t u) :
    Rearranged s u :=
  ⟨h'.leases.trans h.leases, h'.leasePool.trans h.leasePool, h'.fresh.trans h.fresh,
    h'.panicked.trans h.panicked, fun p => (h'.key p).trans (h.key p),
    fun p => (h'.id p).trans (h.id p), fun p => (h'.deadline p).trans (h.deadline p),
    h'.perm.trans h.perm⟩

theorem Rearranged.length_eq (h : Rearranged s t) : t.deadlines.length = s.deadlines.length :=
  h.perm.length_eq

theorem at_eq_getElem {i : Nat} (hi : i < s.deadlines.length) : s.at_ i = s.deadlines[i] := by
  simp [at_, hi]

theorem at_mem {i : Nat} (hi : i < s.deadlines.length) : s.at_ i ∈ s.deadlines := by
  rw [at_eq_getElem hi]
  exact List.getElem_mem hi

theorem exists_at {p : Nat} (hp : p ∈ s.deadlines) : ∃ i, i < s.deadlines.length ∧ s.at_ i = p := by
  obtain ⟨i, hi, rfl⟩ := List.mem_iff_getElem.mp hp
  exact ⟨i, hi, at_eq_getElem hi⟩

/-- An object is at one heap position only, the one it records. -/
theorem Indexed.at_inj (h : s.Indexed) {i j : Nat} (hi : i < s.deadlines.length)
    (hj : j < s.deadlines.length) (hij : s.at_ i = s.at_ j) : i = j := by
  have h1 := h i hi
  rw [hij, h j hj] at h1
  exact_mod_cast h1.symm

theorem Indexed.nodup (h : s.Indexed) : s.deadlines.Nodup := by
  rw [List.nodup_iff_injective_get]
  intro a b hab
  apply Fin.ext
  apply h.at_inj a.2 b.2
  rw [at_eq_getElem a.2, at_eq_getElem b.2]
  exact hab

theorem swap_length (s : LeaseShard) (i j : Nat) :
    (s.swap i j).deadlines.length = s.deadlines.length := by simp [swap]

theorem at_swap (s : LeaseShard) {i j : Nat} (hi : i < s.deadlines.length)
    (hj : j < s.deadlines.length) (m : Nat) :
    (s.swap i j).at_ m = if m = i then s.at_ j else if m = j then s.at_ i else s.at_ m := by
  simp only [at_, swap, List.getD_eq_getElem?_getD, List.getElem?_set]
  by_cases hmj : j = m
  · subst hmj
    by_cases hji : j = i
    · subst hji; simp [hj]
    · simp [hj, hji]
  · by_cases hmi : i = m
    · subst hmi; simp [hmj, hi]
    · simp [hmj, hmi, Ne.symm hmj, Ne.symm hmi]

theorem swap_rearranged (s : LeaseShard) {i j : Nat} (hi : i < s.deadlines.length)
    (hj : j < s.deadlines.length) : Rearranged s (s.swap i j) where
  leases := rfl
  leasePool := rfl
  fresh := rfl
  panicked := rfl
  key p := by simp only [swap, Function.update_apply]; split_ifs <;> simp_all
  id p := by simp only [swap, Function.update_apply]; split_ifs <;> simp_all
  deadline p := by simp only [swap, Function.update_apply]; split_ifs <;> simp_all
  perm := by
    simp only [swap, at_eq_getElem hi, at_eq_getElem hj]
    exact List.set_set_perm hi hj

theorem swap_indexed (h : s.Indexed) {i j : Nat} (hi : i < s.deadlines.length)
    (hj : j < s.deadlines.length) : (s.swap i j).Indexed := by
  intro m hm
  rw [swap_length] at hm
  rw [at_swap s hi hj]
  simp only [swap, Function.update_apply]
  by_cases hmi : m = i
  · subst hmi
    rw [if_pos rfl]
    by_cases hji : s.at_ j = s.at_ m
    · rw [if_pos hji, h.at_inj hj hi hji]
    · rw [if_neg hji, if_pos rfl]
  · rw [if_neg hmi]
    by_cases hmj : m = j
    · subst hmj
      rw [if_pos rfl, if_pos rfl]
    · rw [if_neg hmj, if_neg fun e => hmi (h.at_inj hm hi e),
        if_neg fun e => hmj (h.at_inj hm hj e)]
      exact h m hm

theorem heapLawful : Heap.Lawful heapInterface deadlineAt where
  len_swap := swap_length
  less_iff s i j := decide_eq_true_iff
  key_swap s i j hi hj := by
    funext m
    have hd := (swap_rearranged s hi hj).deadline
    show ((s.swap i j).mem ((s.swap i j).at_ m)).deadline = _
    rw [hd, at_swap s hi hj]
    simp only [Heap.exch, deadlineAt]
    split_ifs <;> rfl

/-- What the sift loops keep: the contents, and the recorded positions. -/
structure Sifted (s t : LeaseShard) : Prop where
  rearranged : Rearranged s t
  indexed : t.Indexed

theorem Sifted.swap (h : Sifted s t) {i j : Nat} (hi : i < t.deadlines.length)
    (hj : j < t.deadlines.length) : Sifted s (t.swap i j) :=
  ⟨h.rearranged.trans (swap_rearranged t hi hj), swap_indexed h.indexed hi hj⟩

theorem up_sifted (h : s.Indexed) {j : Nat} (hj : j < s.deadlines.length) :
    Sifted s (Heap.up heapInterface s j) :=
  Heap.up_preserves (I := heapInterface) swap_length (m := s.deadlines.length)
    (fun t i j hm hi hj ht => ht.swap (by rw [show t.deadlines.length = _ from hm]; exact hi)
      (by rw [show t.deadlines.length = _ from hm]; exact hj)) rfl hj ⟨Rearranged.refl s, h⟩

/-- `sift` below `n` also leaves the positions from `n` on alone. -/
theorem sift_sifted (h : s.Indexed) {i n : Nat} (hn : n ≤ s.deadlines.length) (hi : i < n) :
    Sifted s (Heap.sift heapInterface s i n) ∧
      ∀ m, n ≤ m → (Heap.sift heapInterface s i n).at_ m = s.at_ m :=
  Heap.sift_preserves (I := heapInterface) (m := s.deadlines.length)
    (P := fun t => Sifted s t ∧ ∀ m, n ≤ m → t.at_ m = s.at_ m) swap_length hn
    (fun t i j hm hi hj ⟨ht, hat⟩ => by
      have hi' : i < t.deadlines.length := by rw [show t.deadlines.length = _ from hm]; omega
      have hj' : j < t.deadlines.length := by rw [show t.deadlines.length = _ from hm]; omega
      refine ⟨ht.swap hi' hj', fun m hmn => ?_⟩
      show (t.swap i j).at_ m = _
      rw [at_swap t hi' hj', if_neg (by omega), if_neg (by omega)]
      exact hat m hmn) rfl hi ⟨⟨Rearranged.refl s, h⟩, fun _ _ => rfl⟩

/-! ## The heap operations -/

/-- `t` is `s` with the object `p` taken out of the heap. -/
structure Removed (s t : LeaseShard) (p : Nat) : Prop where
  leases : t.leases = s.leases
  leasePool : t.leasePool = s.leasePool
  fresh : t.fresh = s.fresh
  panicked : t.panicked = s.panicked
  key : ∀ q, (t.mem q).key = (s.mem q).key
  id : ∀ q, (t.mem q).id = (s.mem q).id
  deadline : ∀ q, (t.mem q).deadline = (s.mem q).deadline
  perm : (p :: t.deadlines).Perm s.deadlines
  indexed : t.Indexed
  ordered : Heap.Ordered t.deadlineAt t.deadlines.length

theorem Removed.of_rearranged {u : LeaseShard} {p : Nat} (h : Rearranged s t)
    (h' : Removed t u p) : Removed s u p where
  leases := h'.leases.trans h.leases
  leasePool := h'.leasePool.trans h.leasePool
  fresh := h'.fresh.trans h.fresh
  panicked := h'.panicked.trans h.panicked
  key q := (h'.key q).trans (h.key q)
  id q := (h'.id q).trans (h.id q)
  deadline q := (h'.deadline q).trans (h.deadline q)
  perm := h'.perm.trans h.perm
  indexed := h'.indexed
  ordered := h'.ordered

theorem popLast_at (s : LeaseShard) {m : Nat} (hm : m < s.deadlines.length - 1) :
    s.popLast.at_ m = s.at_ m := by
  simp only [at_, popLast, List.getD_eq_getElem?_getD, List.getElem?_dropLast]
  rw [if_pos hm]

theorem popLast_removed (h : s.Indexed) {n : Nat} (hn : s.deadlines.length = n + 1)
    (ho : Heap.Ordered s.deadlineAt n) : Removed s s.popLast (s.at_ n) := by
  have hlen : s.deadlines.length - 1 = n := by omega
  have hlen' : s.popLast.deadlines.length = n := by simp [popLast, hn]
  have hne : s.deadlines ≠ [] := by
    intro e
    rw [e] at hn
    simp at hn
  have hdl : ∀ q, (s.popLast.mem q).deadline = (s.mem q).deadline := by
    intro q
    simp only [popLast, Function.update_apply]
    split_ifs <;> simp_all
  refine ⟨rfl, rfl, rfl, rfl, fun q => ?_, fun q => ?_, hdl, ?_, fun m hm => ?_, ?_⟩
  · simp only [popLast, Function.update_apply]
    split_ifs <;> simp_all
  · simp only [popLast, Function.update_apply]
    split_ifs <;> simp_all
  · have hlast : s.at_ n = s.deadlines.getLast hne := by
      rw [at_eq_getElem (by omega), List.getLast_eq_getElem]
      simp [hlen]
    rw [hlast]
    show (_ :: s.deadlines.dropLast).Perm _
    conv_rhs => rw [← List.dropLast_append_getLast hne]
    exact (List.perm_append_singleton _ _).symm
  · rw [hlen'] at hm
    rw [popLast_at s (by omega)]
    simp only [popLast, Function.update_apply, hlen]
    rw [if_neg fun e => by have := h.at_inj (by omega) (by omega) e; omega]
    exact h m (by omega)
  · intro m hm0 hm
    rw [hlen'] at hm
    simp only [deadlineAt, hdl]
    rw [popLast_at s (by omega), popLast_at s (by omega)]
    exact ho m hm0 hm

/-- `heap.Remove` of a position in the heap takes that object out. -/
theorem heapRemove_removed (h : s.Indexed) (ho : Heap.Ordered s.deadlineAt s.deadlines.length)
    {i : Nat} (hi : i < s.deadlines.length) : Removed s (s.heapRemove i) (s.at_ i) := by
  obtain ⟨n, hn⟩ : ∃ n, s.deadlines.length = n + 1 :=
    ⟨s.deadlines.length - 1, by omega⟩
  have hlen : s.deadlines.length - 1 = n := by omega
  rw [hn] at ho
  unfold heapRemove
  simp only [hlen, Int.toNat_natCast]
  rw [if_pos ⟨Int.natCast_nonneg i, by exact_mod_cast hi⟩]
  by_cases hin : i = n
  · rw [if_pos hin, hin]
    exact popLast_removed h hn fun m hm0 hm => ho m hm0 (by omega)
  · rw [if_neg hin]
    have hsw : Sifted s (s.swap i n) :=
      Sifted.swap ⟨Rearranged.refl s, h⟩ hi (by omega)
    have hl : (s.swap i n).deadlines.length = n + 1 := by rw [swap_length, hn]
    have hready : Heap.Ready (s.swap i n).deadlineAt i n := by
      show Heap.Ready (heapInterface.swap s i n).deadlineAt i n
      rw [heapLawful.key_swap s i n hi (show n < s.deadlines.length by omega)]
      exact ho.exch_last_ready (by omega)
    obtain ⟨hsi, hat⟩ := sift_sifted hsw.indexed (i := i) (n := n) (by omega) (by omega)
    have hord := heapLawful.sift_ordered (s := s.swap i n) (show n ≤ _ by
      show n ≤ (s.swap i n).deadlines.length
      omega) (by omega) hready
    have hp := popLast_removed (n := n) hsi.indexed (by rw [hsi.rearranged.length_eq, hl]) hord
    rw [hat n (le_refl n), at_swap s hi (by omega), if_neg (by omega), if_pos rfl] at hp
    exact hp.of_rearranged (hsw.rearranged.trans hsi.rearranged)

/-- `heap.Push` of an object that is not in the heap. -/
theorem heapPush_spec (h : s.Indexed) (ho : Heap.Ordered s.deadlineAt s.deadlines.length) {p : Nat}
    (hp : p ∉ s.deadlines) :
    (s.heapPush p).leases = s.leases ∧ (s.heapPush p).leasePool = s.leasePool ∧
      (s.heapPush p).fresh = s.fresh ∧ (s.heapPush p).panicked = s.panicked ∧
      (∀ q, ((s.heapPush p).mem q).key = (s.mem q).key ∧ ((s.heapPush p).mem q).id = (s.mem q).id ∧
        ((s.heapPush p).mem q).deadline = (s.mem q).deadline) ∧
      (s.heapPush p).deadlines.Perm (p :: s.deadlines) ∧ (s.heapPush p).Indexed ∧
      Heap.Ordered (s.heapPush p).deadlineAt (s.heapPush p).deadlines.length := by
  let u : LeaseShard := { s with
    mem := Function.update s.mem p { s.mem p with heapIndex := s.deadlines.length }
    deadlines := s.deadlines ++ [p] }
  have hul : u.deadlines.length = s.deadlines.length + 1 := by simp [u]
  have hua : ∀ m, m < s.deadlines.length → u.at_ m = s.at_ m := by
    intro m hm
    simp only [u, at_, List.getD_eq_getElem?_getD, List.getElem?_append_left hm]
  have hun : u.at_ s.deadlines.length = p := by simp [u, at_]
  have hkey : ∀ q, (u.mem q).key = (s.mem q).key ∧ (u.mem q).id = (s.mem q).id ∧
      (u.mem q).deadline = (s.mem q).deadline := by
    intro q
    simp only [u, Function.update_apply]
    split_ifs with hq
    · simp [hq]
    · simp
  have hud : ∀ m, m < s.deadlines.length → u.deadlineAt m = s.deadlineAt m := by
    intro m hm
    simp only [deadlineAt, hua m hm]
    exact (hkey _).2.2
  have hui : u.Indexed := by
    intro m hm
    by_cases hmn : m = s.deadlines.length
    · rw [hmn, hun]
      simp [u]
    · have hm' : m < s.deadlines.length := by omega
      have hne : s.at_ m ≠ p := fun e => hp (e ▸ at_mem hm')
      rw [hua m hm']
      simp only [u, Function.update_apply, if_neg hne]
      exact h m hm'
  have hsift := up_sifted hui (j := s.deadlines.length) (by omega)
  have hord := heapLawful.up_ordered (s := u) (j := s.deadlines.length)
    (n := s.deadlines.length + 1) (show _ ≤ u.deadlines.length by omega) (by omega)
    (ho.push_ready hud)
  have heq : s.heapPush p = Heap.up heapInterface u s.deadlines.length := by
    show Heap.up heapInterface u (u.deadlines.length - 1) = _
    rw [hul, Nat.add_sub_cancel]
  rw [heq]
  have hr := hsift.rearranged
  refine ⟨hr.leases, hr.leasePool, hr.fresh, hr.panicked, fun q => ?_, ?_, hsift.indexed, ?_⟩
  · exact ⟨(hr.key q).trans (hkey q).1, (hr.id q).trans (hkey q).2.1,
      (hr.deadline q).trans (hkey q).2.2⟩
  · exact hr.perm.trans (List.perm_append_singleton _ _)
  · rw [hr.length_eq, hul]
    exact hord

/-- `heap.Fix` after the priority of a position in the heap changed. -/
theorem heapFix_spec (h : s.Indexed) {i : Nat} (hi : i < s.deadlines.length)
    (ho : Heap.Ready s.deadlineAt i s.deadlines.length) :
    Sifted s (s.heapFix i) ∧
      Heap.Ordered (s.heapFix i).deadlineAt (s.heapFix i).deadlines.length := by
  unfold heapFix
  rw [if_pos ⟨Int.natCast_nonneg i, by exact_mod_cast hi⟩, Int.toNat_natCast]
  obtain ⟨hs, -⟩ := sift_sifted h (le_refl _) hi
  refine ⟨hs, ?_⟩
  rw [hs.rearranged.length_eq]
  exact heapLawful.sift_ordered (le_refl _) hi ho

/-! ## The shard's operations keep the invariant -/

theorem ordered_congr (ht : t.deadlines = s.deadlines)
    (h : ∀ p ∈ s.deadlines, (t.mem p).deadline = (s.mem p).deadline)
    (ho : Heap.Ordered s.deadlineAt s.deadlines.length) :
    Heap.Ordered t.deadlineAt t.deadlines.length := by
  have hat : ∀ m, m < s.deadlines.length → t.deadlineAt m = s.deadlineAt m := by
    intro m hm
    have : t.at_ m = s.at_ m := by simp only [at_, ht]
    simp only [deadlineAt, this]
    exact h _ (at_mem hm)
  intro m hm0 hm
  rw [ht] at hm
  rw [hat m hm, hat _ (by omega)]
  exact ho m hm0 hm

theorem mem_of_find (h : WF s) {k p : Nat} (hp : s.find k = some p) : p ∈ s.deadlines :=
  (h.stored k p hp).2

theorem key_of_find (h : WF s) {k p : Nat} (hp : s.find k = some p) : (s.mem p).key = k :=
  (h.stored k p hp).1

theorem view_of_find {k p : Nat} (hp : s.find k = some p) :
    s.view k = some ((s.mem p).id, (s.mem p).deadline) := by simp [view, hp]

theorem view_eq_none {k : Nat} : s.view k = none ↔ s.find k = none := by simp [view]

theorem mem_keys_iff {key : Nat} : key ∈ s.leases.keys ↔ s.view key ≠ none := by
  rw [ne_eq, view_eq_none, ← AList.mem_keys, ← AList.lookup_isSome, Option.isSome_iff_ne_none]
  rfl

theorem size_erase {k p : Nat} (hp : s.find k = some p) :
    (s.leases.erase k).keys.length + 1 = s.size := by
  have hk : k ∈ s.leases.keys := by
    rw [← AList.mem_keys, ← AList.lookup_isSome]
    simp [show s.leases.lookup k = some p from hp]
  rw [AList.keys_erase, List.length_erase_of_mem hk, size]
  have := List.length_pos_of_mem hk
  omega

/-- Dropping an object taken out of the heap from the map, and recycling it. -/
theorem detach_spec (h : WF s) {k p : Nat} (hp : s.find k = some p) (hr : Removed s t p) :
    let u := { t with leases := s.leases.erase k }.recycleLease p
    WF u ∧ (∀ k', u.view k' = if k' = k then none else s.view k') ∧ u.size + 1 = s.size := by
  have hpm := mem_of_find h hp
  have hnd : (p :: t.deadlines).Nodup := hr.perm.nodup_iff.mpr h.indexed.nodup
  rw [List.nodup_cons] at hnd
  have hsub : ∀ q ∈ t.deadlines, q ≠ p ∧ q ∈ s.deadlines := by
    intro q hq
    exact ⟨fun e => hnd.1 (e ▸ hq), hr.perm.subset (List.mem_cons_of_mem p hq)⟩
  have hback : ∀ q ∈ s.deadlines, q ≠ p → q ∈ t.deadlines := by
    intro q hq hqp
    exact (List.mem_cons.mp (hr.perm.mem_iff.mpr hq)).resolve_left hqp
  have hother : ∀ k' q, k' ≠ k → s.leases.lookup k' = some q → q ≠ p := by
    intro k' q hk hq e
    rw [← (h.stored k' q hq).1, e, key_of_find h hp] at hk
    exact hk rfl
  -- the object's own cells are the only ones that recycling rewrites
  have hmem : ∀ q, q ≠ p → Function.update t.mem p Lease.zero q = t.mem q := fun q hq =>
    Function.update_of_ne hq _ _
  refine ⟨⟨?_, ?_, ?_, ?_, ?_, ?_, ?_, ?_⟩, fun k' => ?_, ?_⟩
  · intro i hi
    have hq := hsub _ (at_mem (s := t) hi)
    show (Function.update t.mem p Lease.zero (t.at_ i)).heapIndex = i
    rw [hmem _ hq.1]
    exact hr.indexed i hi
  · intro k' q hq
    simp only [recycleLease] at hq ⊢
    by_cases hk : k' = k
    · rw [hk, AList.lookup_erase] at hq
      exact absurd hq (by simp)
    · rw [AList.lookup_erase_ne hk] at hq
      have hqp := hother k' q hk hq
      rw [hmem q hqp, hr.key]
      exact ⟨(h.stored k' q hq).1, hback q (h.stored k' q hq).2 hqp⟩
  · intro q hq
    obtain ⟨hqp, hqs⟩ := hsub q hq
    simp only [recycleLease]
    rw [hmem q hqp, hr.key, AList.lookup_erase_ne]
    · exact h.listed q hqs
    · intro e
      have := h.listed q hqs
      rw [e, show s.leases.lookup k = some p from hp] at this
      exact hqp (Option.some.inj this).symm
  · exact ordered_congr (s := t) rfl (fun q hq => by
      simp only [recycleLease]; rw [hmem q (hsub q hq).1]) hr.ordered
  · intro q hq
    simp only [recycleLease, hr.fresh]
    exact h.allocated q (hsub q hq).2
  · simp only [recycleLease, hr.leasePool, List.nodup_cons]
    exact ⟨fun hin => (h.pool_free p hin).2 hpm, h.pool_nodup⟩
  · intro q hq
    simp only [recycleLease, hr.leasePool, hr.fresh, List.mem_cons] at hq ⊢
    rcases hq with rfl | hq
    · exact ⟨h.allocated q hpm, hnd.1⟩
    · exact ⟨(h.pool_free q hq).1, fun hin => (h.pool_free q hq).2 (hsub q hin).2⟩
  · exact hr.panicked.trans h.safe
  · simp only [view, find, recycleLease]
    by_cases hk : k' = k
    · rw [if_pos hk, hk, AList.lookup_erase, Option.map_none]
    · rw [if_neg hk, AList.lookup_erase_ne hk]
      cases hq : s.leases.lookup k' with
      | none => rfl
      | some q => simp only [Option.map_some, hmem q (hother k' q hk hq), hr.id, hr.deadline]
  · exact size_erase hp

/-- **`removeLease`** of a stored object removes its entry, and calls `heap.Remove` with an index
of the heap. -/
theorem removeLease_spec (h : WF s) {k p : Nat} (hp : s.find k = some p) :
    WF (s.removeLease p) ∧
      (∀ k', (s.removeLease p).view k' = if k' = k then none else s.view k') ∧
      (s.removeLease p).size + 1 = s.size := by
  obtain ⟨i, hi, hat⟩ := exists_at (mem_of_find h hp)
  let s' : LeaseShard := { s with leases := s.leases.erase (s.mem p).key }
  have hidx : (s'.mem p).heapIndex = i := by
    show (s.mem p).heapIndex = i
    rw [← hat]
    exact h.indexed i hi
  have hr : Removed s' (s'.heapRemove i) p := by
    have := heapRemove_removed (s := s') h.indexed h.ordered hi
    rwa [show s'.at_ i = p from hat] at this
  have hr' : Removed s { s'.heapRemove i with leases := s.leases } p :=
    ⟨rfl, hr.leasePool, hr.fresh, hr.panicked, hr.key, hr.id, hr.deadline, hr.perm, hr.indexed,
      hr.ordered⟩
  have heq : s.removeLease p =
      { { s'.heapRemove i with leases := s.leases } with
        leases := s.leases.erase k }.recycleLease p := by
    show (s'.heapRemove (s'.mem p).heapIndex).recycleLease p = _
    rw [hidx, ← key_of_find h hp]
    have hl : (s'.heapRemove i).leases = s.leases.erase (s.mem p).key := hr.leases
    rw [← hl]
  rw [heq]
  exact detach_spec h hp hr'

/-- **`addLease`** of an absent key stores it, whatever the pool returns. -/
theorem addLease_spec (h : WF s) (pool : PoolGet) {key : Nat} (id : LeaseID) (deadline : Time)
    (hk : s.find key = none) :
    WF (s.addLease pool key id deadline) ∧
      (∀ k, (s.addLease pool key id deadline).view k =
        if k = key then some (id, deadline) else s.view k) ∧
      (s.addLease pool key id deadline).size = s.size + 1 := by
  -- the pointer is one that nothing uses, and stays out of the pool
  obtain ⟨p, l, n, hpd, hpn, hsub, hfree, hnd, hpool, heq⟩ : ∃ p l n, p ∉ s.deadlines ∧ p < n ∧
      s.fresh ≤ n ∧ (∀ q ∈ l, q ∈ s.leasePool ∧ q ≠ p) ∧ l.Nodup ∧
      (∀ q ∈ s.deadlines, q ≠ p) ∧
      s.addLease pool key id deadline = heapPush { s with
        leasePool := l, fresh := n, mem := Function.update s.mem p ⟨key, id, deadline, -1⟩
        leases := s.leases.insert key p } p := by
    unfold addLease
    cases hg : pool.get s.leasePool with
    | none =>
      have hnew : s.fresh ∉ s.deadlines := fun hin => Nat.lt_irrefl _ (h.allocated _ hin)
      exact ⟨s.fresh, s.leasePool, s.fresh + 1, hnew, by omega, by omega,
        fun q hq => ⟨hq, fun e => by have := (h.pool_free q hq).1; omega⟩, h.pool_nodup,
        fun q hq e => hnew (e ▸ hq), rfl⟩
    | some p =>
      have hp := h.pool_free p (pool.mem hg)
      exact ⟨p, s.leasePool.erase p, s.fresh, hp.2, hp.1, le_refl _,
        fun q hq => ⟨List.mem_of_mem_erase hq, fun e => by
          rw [e] at hq
          exact (h.pool_nodup.mem_erase_iff.mp hq).1 rfl⟩, h.pool_nodup.erase p,
        fun q hq e => hp.2 (e ▸ hq), rfl⟩
  let u : LeaseShard := { s with
    leasePool := l, fresh := n, mem := Function.update s.mem p ⟨key, id, deadline, -1⟩
    leases := s.leases.insert key p }
  have humem : ∀ q, q ≠ p → u.mem q = s.mem q := fun q hq => Function.update_of_ne hq _ _
  have hup : u.mem p = ⟨key, id, deadline, -1⟩ := Function.update_self _ _ _
  have hui : u.Indexed := by
    intro i hi
    show (u.mem (s.at_ i)).heapIndex = i
    rw [humem _ (hpool _ (at_mem (s := s) hi))]
    exact h.indexed i hi
  have huo : Heap.Ordered u.deadlineAt u.deadlines.length :=
    ordered_congr (s := s) rfl (fun q hq => by rw [humem q (hpool q hq)]) h.ordered
  obtain ⟨hl, hlp, hf, hpk, hflds, hperm, hix, hord⟩ := heapPush_spec hui huo (p := p) hpd
  rw [heq]
  have hlk : ∀ k, k ≠ key → (s.leases.insert key p).lookup k = s.leases.lookup k := fun k hk =>
    AList.lookup_insert_ne hk
  have hself : (s.leases.insert key p).lookup key = some p := AList.lookup_insert s.leases
  refine ⟨⟨hix, ?_, ?_, hord, ?_, ?_, ?_, hpk.trans h.safe⟩, fun k => ?_, ?_⟩
  · intro k q hq
    rw [hl] at hq
    rw [(hflds q).1]
    by_cases hkk : k = key
    · subst hkk
      rw [show u.leases.lookup k = some p from hself] at hq
      cases hq
      exact ⟨by rw [hup], hperm.symm.subset List.mem_cons_self⟩
    · rw [show u.leases.lookup k = _ from hlk k hkk] at hq
      have hst := h.stored k q hq
      rw [humem q (hpool q hst.2)]
      exact ⟨hst.1, hperm.symm.subset (List.mem_cons_of_mem _ hst.2)⟩
  · intro q hq
    rw [(hflds q).1, hl]
    rcases List.mem_cons.mp (hperm.subset hq) with rfl | hqs
    · rw [hup]
      exact hself
    · rw [humem q (hpool q hqs)]
      have hls := h.listed q hqs
      rw [show u.leases.lookup _ = _ from hlk _ fun e => by
        rw [e, show s.leases.lookup key = none from hk] at hls
        exact absurd hls (by simp)]
      exact hls
  · intro q hq
    rw [hf]
    rcases List.mem_cons.mp (hperm.subset hq) with rfl | hqs
    · exact hpn
    · exact lt_of_lt_of_le (h.allocated q hqs) hsub
  · rw [hlp]
    exact hnd
  · intro q hq
    rw [hlp] at hq
    obtain ⟨hqp, hqne⟩ := hfree q hq
    rw [hf]
    refine ⟨lt_of_lt_of_le (h.pool_free q hqp).1 hsub, fun hin => ?_⟩
    exact (h.pool_free q hqp).2 ((List.mem_cons.mp (hperm.subset hin)).resolve_left hqne)
  · simp only [view, find]
    rw [hl]
    by_cases hkk : k = key
    · subst hkk
      rw [if_pos rfl, show u.leases.lookup k = some p from hself, Option.map_some, (hflds p).2.1,
        (hflds p).2.2, hup]
    · rw [if_neg hkk, show u.leases.lookup k = _ from hlk k hkk]
      cases hq : s.leases.lookup k with
      | none => rfl
      | some q =>
        rw [Option.map_some, Option.map_some, (hflds q).2.1, (hflds q).2.2,
          humem q (hpool q (h.stored k q hq).2)]
  · simp only [size]
    rw [hl]
    show (s.leases.insert key p).keys.length = _
    rw [AList.keys_insert, List.length_cons, List.erase_of_not_mem]
    rw [← AList.mem_keys]
    exact AList.lookup_eq_none.mp hk

/-- **The renewal of a stored object** moves its deadline and nothing else. -/
theorem extend_spec (h : WF s) {k p : Nat} (hp : s.find k = some p) (deadline : Time) :
    WF (s.extend p deadline) ∧
      (∀ k', (s.extend p deadline).view k' =
        if k' = k then some ((s.mem p).id, deadline) else s.view k') ∧
      (s.extend p deadline).size = s.size := by
  obtain ⟨i, hi, hat⟩ := exists_at (mem_of_find h hp)
  let u : LeaseShard :=
    { s with mem := Function.update s.mem p { s.mem p with deadline := deadline } }
  have humem : ∀ q, q ≠ p → u.mem q = s.mem q := fun q hq => Function.update_of_ne hq _ _
  have hup : u.mem p = { s.mem p with deadline := deadline } := Function.update_self _ _ _
  have hkey : ∀ q, (u.mem q).key = (s.mem q).key ∧ (u.mem q).id = (s.mem q).id ∧
      (u.mem q).heapIndex = (s.mem q).heapIndex := by
    intro q
    by_cases hq : q = p
    · rw [hq, hup]
      exact ⟨rfl, rfl, rfl⟩
    · rw [humem q hq]
      exact ⟨rfl, rfl, rfl⟩
  have hui : u.Indexed := fun m hm => (hkey _).2.2.trans (h.indexed m hm)
  have hready : Heap.Ready u.deadlineAt i u.deadlines.length :=
    (h.ordered.ready hi).congr fun m hm hmi => by
      show (u.mem (s.at_ m)).deadline = (s.mem (s.at_ m)).deadline
      rw [humem _ fun e => hmi (h.indexed.at_inj hm hi (e.trans hat.symm))]
  obtain ⟨hs, hord⟩ := heapFix_spec hui hi hready
  have hr := hs.rearranged
  have heq : s.extend p deadline = u.heapFix i := by
    show u.heapFix (u.mem p).heapIndex = _
    rw [(hkey p).2.2, ← hat, h.indexed i hi]
  rw [heq]
  refine ⟨⟨hs.indexed, ?_, ?_, hord, ?_, ?_, ?_, hr.panicked.trans h.safe⟩, fun k' => ?_, ?_⟩
  · intro k' q hq
    rw [hr.leases] at hq
    rw [hr.key, (hkey q).1]
    exact ⟨(h.stored k' q hq).1, hr.perm.symm.subset (h.stored k' q hq).2⟩
  · intro q hq
    rw [hr.key, (hkey q).1, hr.leases]
    exact h.listed q (hr.perm.subset hq)
  · intro q hq
    rw [hr.fresh]
    exact h.allocated q (hr.perm.subset hq)
  · rw [hr.leasePool]
    exact h.pool_nodup
  · intro q hq
    rw [hr.leasePool] at hq
    rw [hr.fresh]
    exact ⟨(h.pool_free q hq).1, fun hin => (h.pool_free q hq).2 (hr.perm.subset hin)⟩
  · simp only [view, find, hr.leases]
    by_cases hk : k' = k
    · subst hk
      rw [if_pos rfl, show u.leases.lookup k' = some p from hp, Option.map_some, hr.id, hr.deadline,
        hup]
    · rw [if_neg hk]
      cases hq : s.leases.lookup k' with
      | none => rfl
      | some q =>
        have hqp : q ≠ p := fun e => hk (by
          rw [← (h.stored k' q hq).1, e, key_of_find h hp])
        rw [Option.map_some, Option.map_some, hr.id, hr.deadline, humem q hqp]
  · simp only [size, hr.leases]
    rfl

/-- The root of the heap is the stored object with the earliest deadline; the loop body removes its
entry. -/
theorem removeRoot_spec (h : WF s) (hne : s.deadlines ≠ []) :
    WF s.removeRoot ∧ s.removeRoot.deadlines.length + 1 = s.deadlines.length ∧
      s.removeRoot.size + 1 = s.size ∧
      ∃ k id, s.view k = some (id, s.deadlineAt 0) ∧
        ∀ k', s.removeRoot.view k' = if k' = k then none else s.view k' := by
  have h0 : 0 < s.deadlines.length := List.length_pos_of_ne_nil hne
  have hr : Removed s (s.heapRemove 0) (s.at_ 0) := heapRemove_removed h.indexed h.ordered h0
  have hf : s.find (s.mem (s.at_ 0)).key = some (s.at_ 0) := h.listed _ (at_mem h0)
  obtain ⟨hwf, hview, hsize⟩ := detach_spec h hf hr
  have heq : s.removeRoot = { s.heapRemove 0 with
      leases := s.leases.erase (s.mem (s.at_ 0)).key }.recycleLease (s.at_ 0) := by
    unfold removeRoot
    simp only [hr.leases, hr.key]
  rw [heq]
  have hlen : (s.heapRemove 0).deadlines.length + 1 = s.deadlines.length := hr.perm.length_eq
  exact ⟨hwf, hlen, hsize, _, _, view_of_find hf, hview⟩

/-- The part of an entry of `view` that is live at `now`. -/
def liveAt (now : Time) (e : Option (LeaseID × Time)) : Option (LeaseID × Time) :=
  e.filter fun e => decide (now < e.2)

@[simp] theorem liveAt_none (now : Time) : liveAt now none = none := rfl

theorem liveAt_some (now : Time) (id : LeaseID) (d : Time) :
    liveAt now (some (id, d)) = if now < d then some (id, d) else none := by
  simp [liveAt, Option.filter_some]

/-- When the loop of `removeExpiredLeases` stops, no stored entry has expired. -/
theorem liveAt_of_stop (h : WF s) {now : Time}
    (hn : ¬ (s.deadlines ≠ [] ∧ s.deadlineAt 0 ≤ now)) (k : Nat) :
    s.view k = liveAt now (s.view k) := by
  cases hf : s.find k with
  | none => rw [view_eq_none.mpr hf]; rfl
  | some p =>
    obtain ⟨i, hi, hat⟩ := exists_at (mem_of_find h hf)
    have hne : s.deadlines ≠ [] := List.ne_nil_of_length_pos (by omega)
    have hlt : now < s.deadlineAt 0 := not_le.mp fun hle => hn ⟨hne, hle⟩
    have hi' : (s.mem p).deadline = s.deadlineAt i := by rw [deadlineAt, hat]
    rw [view_of_find hf, liveAt_some, if_pos]
    rw [hi']
    exact lt_of_lt_of_le hlt (h.ordered.root_le i hi)

theorem removeExpiredLoop_spec (now : Time) :
    ∀ fuel (s : LeaseShard) (deleted : Nat), WF s → s.deadlines.length ≤ fuel →
      WF (removeExpiredLoop now fuel s deleted).1 ∧
      (∀ k, (removeExpiredLoop now fuel s deleted).1.view k = liveAt now (s.view k)) ∧
      (removeExpiredLoop now fuel s deleted).1.size + (removeExpiredLoop now fuel s deleted).2 =
        s.size + deleted
  | 0, s, deleted, h, hlen => by
    have hnil : s.deadlines = [] := List.length_eq_zero_iff.mp (by omega)
    exact ⟨h, liveAt_of_stop h fun hc => hc.1 hnil, rfl⟩
  | fuel + 1, s, deleted, h, hlen => by
    unfold removeExpiredLoop
    split
    · rename_i hgo
      obtain ⟨hwf, hlen', hsize, k₀, id, hroot, hview⟩ := removeRoot_spec h hgo.1
      obtain ⟨ih1, ih2, ih3⟩ :=
        removeExpiredLoop_spec now fuel s.removeRoot (deleted + 1) hwf (by omega)
      refine ⟨ih1, fun k => ?_, by omega⟩
      rw [ih2 k, hview k]
      split_ifs with hk
      · rw [hk, hroot, liveAt_some, if_neg (not_lt.mpr hgo.2)]
        rfl
      · rfl
    · rename_i hn
      exact ⟨h, liveAt_of_stop h hn, rfl⟩

/-- **`removeExpiredLeases(now)`** deletes exactly the entries with deadline at most `now`, and
returns their number. -/
theorem removeExpiredLeases_spec (h : WF s) (now : Time) :
    WF (s.removeExpiredLeases now).1 ∧
      (∀ k, (s.removeExpiredLeases now).1.view k = liveAt now (s.view k)) ∧
      (s.removeExpiredLeases now).1.size + (s.removeExpiredLeases now).2 = s.size :=
  removeExpiredLoop_spec now _ s 0 h (le_refl _)

end LeaseShard

end RedLease.Server
