import Mathlib.Algebra.Group.Nat.Defs
import Mathlib.Data.List.GetD
import Mathlib.Tactic.SplitIfs
import RedLease.Lib.FlatBuffers.Runtime

/-!
# Reading FlatBuffers

The reading half of the Go package: `flatbuffers.Table` and `flatbuffers.Struct` on a buffer.
Positions are `uint32` and wrap around; a read beyond the end of the buffer panics and has no result.
-/

namespace RedLease.Lib.FlatBuffers

/-- The number of these bytes, the lowest first. -/
def ofBytes : List UInt8 → Nat
  | [] => 0
  | b :: bs => b.toNat + 256 * ofBytes bs

variable (frame : List UInt8)

/-- `GetUint64` and its kin, by the size of the scalar. -/
def getScalar (size pos : Nat) : Option Nat :=
  if pos + size ≤ frame.length then some (ofBytes ((frame.drop pos).take size)) else none

/-- The difference of two `uint32`. -/
def sub32 (m n : Nat) : Nat := (m + 2 ^ 32 - n) % 2 ^ 32

/-- `Table.Offset`. -/
def tableOffset (pos vtableOffset : Nat) : Option Nat :=
  (getScalar frame 4 pos).bind fun soffset =>
    (getScalar frame 2 (sub32 pos soffset)).bind fun size =>
      if vtableOffset < size then getScalar frame 2 (add32 (sub32 pos soffset) vtableOffset)
      else some 0

/-- The reading half of the package. -/
def goReader : Reader where
  getUOffsetT frame pos := getScalar frame 4 pos
  tableOffset := tableOffset
  getScalar := getScalar

/-! ## Little-endian numbers -/

@[simp] theorem length_bytesLE (k x : Nat) : (bytesLE k x).length = k := by
  induction k generalizing x with
  | zero => rfl
  | succ k ih => rw [bytesLE, List.length_cons, ih]

theorem ofBytes_bytesLE (k x : Nat) : ofBytes (bytesLE k x) = x % 256 ^ k := by
  induction k generalizing x with
  | zero => rw [Nat.pow_zero, Nat.mod_one]; rfl
  | succ k ih =>
    have hsplit : x % 256 ^ (k + 1) = x % 256 + 256 * (x / 256 % 256 ^ k) := by
      rw [Nat.pow_succ', Nat.mod_mul]
    rw [bytesLE, ofBytes, ih, hsplit, UInt8.toNat_ofNat']

theorem ofBytes_of_lt {k x : Nat} (h : x < 256 ^ k) : ofBytes (bytesLE k x) = x := by
  rw [ofBytes_bytesLE, Nat.mod_eq_of_lt h]

theorem length_flatMap_bytesLE (k : Nat) (xs : List Nat) :
    (xs.flatMap (bytesLE k)).length = k * xs.length := by
  rw [List.length_flatMap]
  simp [Nat.mul_comm]

theorem drop_flatMap_bytesLE (k : Nat) (xs : List Nat) (i : Nat) :
    (xs.flatMap (bytesLE k)).drop (k * i) = (xs.drop i).flatMap (bytesLE k) := by
  induction i generalizing xs with
  | zero => rfl
  | succ i ih =>
    cases xs with
    | nil => simp
    | cons x xs =>
      rw [List.flatMap_cons, Nat.mul_succ, Nat.add_comm, ← List.drop_drop, List.drop_left'
        (length_bytesLE ..), ih]
      rfl

theorem ofBytes_lt (bs : List UInt8) : ofBytes bs < 256 ^ bs.length := by
  induction bs with
  | nil => exact Nat.one_pos
  | cons b bs ih =>
    have hb := b.toNat_lt
    rw [ofBytes, List.length_cons, Nat.pow_succ']
    omega

/-! ## Scalars -/

variable {frame}

theorem add32_of_lt {m n : Nat} (h : m + n < 2 ^ 32) : add32 m n = m + n := Nat.mod_eq_of_lt h

theorem getScalar_lt {size pos x : Nat} (h : getScalar frame size pos = some x) : x < 256 ^ size := by
  unfold getScalar at h
  split_ifs at h with hlen
  cases h
  have hlt := ofBytes_lt ((frame.drop pos).take size)
  rwa [List.length_take, List.length_drop, Nat.min_eq_left (by omega)] at hlt

/-- A scalar that stands at a position. -/
theorem getScalar_eq {size x pos : Nat} (h : bytesLE size x <+: frame.drop pos)
    (hpos : pos ≤ frame.length) (hx : x < 256 ^ size) : getScalar frame size pos = some x := by
  obtain ⟨rest, hrest⟩ := h
  have hlen := congrArg List.length hrest
  rw [List.length_append, length_bytesLE, List.length_drop] at hlen
  unfold getScalar
  rw [if_pos (by omega), ← hrest]
  rw [List.take_left' (length_bytesLE ..), ofBytes_of_lt hx]

/-- An entry of a vtable that stands at `pos`. -/
theorem getScalar_entry {xs : List Nat} {pos i : Nat}
    (h : xs.flatMap (bytesLE 2) <+: frame.drop pos) (hpos : pos ≤ frame.length) (hi : i < xs.length)
    (hx : xs.getD i 0 < 2 ^ 16) : getScalar frame 2 (pos + 2 * i) = some (xs.getD i 0) := by
  obtain ⟨rest, hrest⟩ := h
  have hlen := congrArg List.length hrest
  rw [List.length_append, length_flatMap_bytesLE, List.length_drop] at hlen
  refine getScalar_eq ?_ (by omega) hx
  have hdrop : frame.drop (pos + 2 * i) = (xs.drop i).flatMap (bytesLE 2) ++ rest := by
    rw [← List.drop_drop, ← hrest, List.drop_append_of_le_length
      (by rw [length_flatMap_bytesLE]; omega), drop_flatMap_bytesLE]
  rw [hdrop, List.drop_eq_getElem_cons hi, List.flatMap_cons, List.getD_eq_getElem _ _ hi,
    List.append_assoc]
  exact List.prefix_append ..

theorem tableOffset_eq {pos soffset vtable size : Nat} (hsoffset : getScalar frame 4 pos = some soffset)
    (hvtable : sub32 pos soffset = vtable) (hsize : getScalar frame 2 vtable = some size)
    (o : Nat) : tableOffset frame pos o =
      if o < size then getScalar frame 2 (add32 vtable o) else some 0 := by
  subst hvtable
  unfold tableOffset
  rw [hsoffset, Option.bind_some, hsize, Option.bind_some]

end RedLease.Lib.FlatBuffers
