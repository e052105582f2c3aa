import Mathlib.Algebra.GroupWithZero.Nat
import Mathlib.Data.List.Nodup

/-!
# The FlatBuffers runtime

The Go package `flatbuffers` as an interface: the functions that generated code for tables with scalar
and struct fields calls. A call that panics has no result.

What is assumed of the package is what its documentation promises, in terms of whole tables: what is
written into the fields of a table is read from them, whatever the builder was used for before it was
reset. What is proved of generated code is proved for every `Runtime` that is `Documented`.

* `Reader`, `Runtime`: the functions of the package.
* `Runtime.buildTable`, `Reader.scalarField`, `Reader.structField`: how generated code calls them.
* **`Documented`**: what is assumed of them.
-/

namespace RedLease.Lib.FlatBuffers

/-- The lowest `k` bytes of a number, the lowest first. -/
def bytesLE : Nat → Nat → List UInt8
  | 0, _ => []
  | k + 1, x => UInt8.ofNat x :: bytesLE k (x / 256)

/-- The sum of two `uint32`. -/
def add32 (m n : Nat) : Nat := (m + n) % 2 ^ 32

/-! ## Reading -/

/-- Reading a buffer, at positions that are `uint32`. -/
structure Reader where
  /-- `GetUOffsetT`. -/
  getUOffsetT : List UInt8 → Nat → Option Nat
  /-- `Table.Offset`, for the table at a position: where the field of a vtable offset is, or zero. -/
  tableOffset : List UInt8 → Nat → Nat → Option Nat
  /-- `GetUint64` and its kin, by the size of the scalar. -/
  getScalar : List UInt8 → Nat → Nat → Option Nat

namespace Reader

variable (rd : Reader) (frame : List UInt8)

/-- The position of the table, as the generated `GetSizePrefixedRootAs` functions find it. -/
def root : Option Nat := (rd.getUOffsetT frame 4).map fun n => add32 n 4

/-- The position of a field of the root table, if it has the field. -/
def tableField (vtableOffset : Nat) : Option (Option Nat) :=
  (rd.root frame).bind fun pos =>
    (rd.tableOffset frame pos vtableOffset).map fun o => if o ≠ 0 then some (add32 o pos) else none

/-- The generated accessor of a scalar field with default `d`. -/
def scalarField (size vtableOffset d : Nat) : Option Nat :=
  (rd.tableField frame vtableOffset).bind fun
    | some pos => rd.getScalar frame size pos
    | none => some d

/-- The generated accessor of a field of a struct at `pos`. -/
def structField (size pos offset : Nat) : Option Nat := rd.getScalar frame size (add32 pos offset)

end Reader

/-! ## Building -/

/-- One of the calls that write a struct. -/
inductive Part where
  | scalar (size x : Nat)
  | padding (n : Nat)

/-- The bytes that a part takes. -/
def Part.length : Part → Nat
  | scalar size _ => size
  | padding n => n

/-- The bytes that a struct takes. -/
def structSize : List Part → Nat
  | [] => 0
  | p :: ps => p.length + structSize ps

/-- A field of a table under construction. -/
inductive Field where
  | scalar (slot size x d : Nat)
  | struct (slot align size : Nat) (parts : List Part)

/-- The slot of a field. -/
def Field.slot : Field → Nat
  | scalar slot _ _ _ => slot
  | struct slot _ _ _ => slot

/-- The package. -/
structure Runtime extends Reader where
  /-- `flatbuffers.Builder`. -/
  Builder : Type
  newBuilder : Nat → Builder
  reset : Builder → Builder
  startObject : Builder → Nat → Option Builder
  /-- `PrependUint64Slot` and its kin, by the size of the scalar. -/
  prependScalarSlot : Builder → (size slot x d : Nat) → Option Builder
  prep : Builder → (size additionalBytes : Nat) → Option Builder
  /-- `PrependUint64` and its kin. -/
  prependScalar : Builder → (size x : Nat) → Option Builder
  pad : Builder → Nat → Option Builder
  offset : Builder → Nat
  prependStructSlot : Builder → (slot x d : Nat) → Option Builder
  /-- `EndObject`, with the offset of the table. -/
  endObject : Builder → Option (Builder × Nat)
  finishSizePrefixed : Builder → Nat → Option Builder
  finishedBytes : Builder → Option (List UInt8)

namespace Runtime

variable (rt : Runtime) (b : rt.Builder)

/-- One part of a struct. -/
def prependPart : Part → Option rt.Builder
  | .scalar size x => rt.prependScalar b size x
  | .padding n => rt.pad b n

/-- The parts of a struct, the last one first. -/
def prependParts : List Part → Option rt.Builder
  | [] => some b
  | p :: ps => (prependParts ps).bind (rt.prependPart · p)

/-- The generated functions that create a struct, with its offset. -/
def createStruct (align size : Nat) (ps : List Part) : Option (rt.Builder × Nat) :=
  (rt.prep b align size).bind fun b => (rt.prependParts b ps).map fun b => (b, rt.offset b)

/-- A field is added to the table. -/
def addField : Field → Option rt.Builder
  | .scalar slot size x d => rt.prependScalarSlot b size slot x d
  | .struct slot align size ps =>
    (rt.createStruct b align size ps).bind fun (b, x) => rt.prependStructSlot b slot x 0

/-- The fields of a table, one after the other. -/
def addFields : rt.Builder → List Field → Option rt.Builder
  | b, [] => some b
  | b, f :: fs => (rt.addField b f).bind (addFields · fs)

/-- A buffer with one table of `n` fields. -/
def buildTable (n : Nat) (fields : List Field) : Option rt.Builder :=
  (rt.startObject b n).bind fun b => (rt.addFields b fields).bind fun b =>
    (rt.endObject b).bind fun (b, root) => rt.finishSizePrefixed b root

/-- The bytes of the table, as a new builder builds it. -/
def frame (n : Nat) (fields : List Field) : List UInt8 :=
  ((rt.buildTable (rt.newBuilder 0) n fields).bind rt.finishedBytes).getD []

/-- Nothing is written yet. -/
def Fresh : Prop := (∃ size, b = rt.newBuilder size) ∨ ∃ b', b = rt.reset b'

end Runtime

/-! ## Tables -/

/-- Every scalar of a struct fits, and stands at a multiple of its size, counted from the end. -/
def Aligned (align : Nat) : List Part → Prop
  | [] => True
  | .scalar size x :: ps =>
    0 < size ∧ size ∣ align ∧ size ∣ structSize ps ∧ x < 256 ^ size ∧ Aligned align ps
  | .padding _ :: ps => Aligned align ps

/-- A scalar fits its size; a struct is laid out as `flatc` does. -/
def Field.Wf : Field → Prop
  | scalar _ size x _ => (size = 1 ∨ size = 2 ∨ size = 4 ∨ size = 8) ∧ x < 256 ^ size
  | struct _ align size ps => (align = 1 ∨ align = 2 ∨ align = 4 ∨ align = 8) ∧
      Aligned align ps ∧ structSize ps = size ∧ 0 < size ∧ align ∣ size

/-- The bytes that a field takes at most, with what aligns it. -/
def Field.room : Field → Nat
  | scalar _ size _ _ => 2 * size
  | struct _ align size _ => size + align

/-- The bytes that the fields take at most. -/
def room (fields : List Field) : Nat := (fields.map Field.room).sum

/-- A table of `n` fields of which these are set, each once. -/
structure WellFormed (n : Nat) (fields : List Field) : Prop where
  wf : ∀ f ∈ fields, f.Wf
  slot : ∀ f ∈ fields, f.slot < n
  nodup : (fields.map Field.slot).Nodup
  /-- The offsets in a vtable have 16 bits. -/
  small : 2 * n + room fields + 64 < 2 ^ 16

/-- The field is not written: it is not set, or has its default. -/
def Omitted (fields : List Field) (slot : Nat) : Prop :=
  ∀ f ∈ fields, f.slot = slot → ∃ size x, f = .scalar slot size x x

/-- What the package promises. -/
structure Documented (rt : Runtime) : Prop where
  /-- Every builder that is new, or was reset, builds a table, and always the same bytes. -/
  builds : ∀ {n fields}, WellFormed n fields → ∀ b, rt.Fresh b →
    ∃ b', rt.buildTable b n fields = some b' ∧ rt.finishedBytes b' = some (rt.frame n fields)
  /-- The buffer begins with its size. -/
  sizePrefix : ∀ {n fields}, WellFormed n fields →
    ∃ rest, rt.frame n fields = bytesLE 4 rest.length ++ rest ∧ 4 ≤ rest.length
  /-- It has the vtable, the fields, and not much besides. -/
  length_le : ∀ {n fields}, WellFormed n fields →
    (rt.frame n fields).length ≤ 2 * n + room fields + 32
  /-- The root table is found. -/
  root : ∀ {n fields}, WellFormed n fields → ∃ pos, rt.root (rt.frame n fields) = some pos
  /-- A field that was not written is not found. -/
  omitted : ∀ {n fields slot pos}, WellFormed n fields → Omitted fields slot →
    rt.root (rt.frame n fields) = some pos →
    rt.tableOffset (rt.frame n fields) pos (4 + 2 * slot) = some 0
  /-- A scalar that was written is read. -/
  scalar : ∀ {n fields slot size x d pos}, WellFormed n fields → .scalar slot size x d ∈ fields →
    x ≠ d → rt.root (rt.frame n fields) = some pos →
    ∃ o, rt.tableOffset (rt.frame n fields) pos (4 + 2 * slot) = some o ∧ o ≠ 0 ∧
      rt.getScalar (rt.frame n fields) size (add32 o pos) = some x
  /-- A struct that was written is found, with its scalars. -/
  struct : ∀ {n fields slot align size ps pos}, WellFormed n fields →
    .struct slot align size ps ∈ fields → rt.root (rt.frame n fields) = some pos →
    ∃ o, rt.tableOffset (rt.frame n fields) pos (4 + 2 * slot) = some o ∧ o ≠ 0 ∧
      ∀ before k x after, ps = before ++ .scalar k x :: after →
        rt.getScalar (rt.frame n fields) k (add32 (add32 o pos) (structSize before)) = some x
  /-- A scalar that is read fits its type. -/
  getScalar_lt : ∀ {frame size pos x}, rt.getScalar frame size pos = some x → x < 256 ^ size

/-! ## Reading what was built -/

section Documented

variable {rt : Runtime} {n : Nat} {fields : List Field} {slot : Nat}

/-- The accessor of a scalar field returns what was written, or the default. -/
theorem Documented.scalarField (h : Documented rt) (hwf : WellFormed n fields) {size x d : Nat}
    (hf : .scalar slot size x d ∈ fields) :
    rt.scalarField (rt.frame n fields) size (4 + 2 * slot) d = some x := by
  obtain ⟨pos, hroot⟩ := h.root hwf
  unfold Reader.scalarField Reader.tableField
  rw [hroot, Option.bind_some]
  by_cases hd : x = d
  · have homitted : Omitted fields slot := fun f hmem hslot => by
      obtain rfl : f = .scalar slot size x d :=
        List.inj_on_of_nodup_map hwf.nodup hmem hf hslot
      exact ⟨size, x, by rw [hd]⟩
    rw [h.omitted hwf homitted hroot, hd]
    rfl
  · obtain ⟨o, hoffset, hne, hread⟩ := h.scalar hwf hf hd hroot
    rw [hoffset, Option.map_some, if_pos hne]
    exact hread

/-- The accessor of a struct field finds the struct, and those of the struct its scalars. -/
theorem Documented.structField (h : Documented rt) (hwf : WellFormed n fields) {align size : Nat}
    {ps : List Part} (hf : .struct slot align size ps ∈ fields) :
    ∃ pos, rt.tableField (rt.frame n fields) (4 + 2 * slot) = some (some pos) ∧
      ∀ before k x after, ps = before ++ .scalar k x :: after →
        rt.structField (rt.frame n fields) k pos (structSize before) = some x := by
  obtain ⟨pos, hroot⟩ := h.root hwf
  obtain ⟨o, hoffset, hne, hread⟩ := h.struct hwf hf hroot
  refine ⟨add32 o pos, ?_, hread⟩
  unfold Reader.tableField
  rw [hroot, Option.bind_some, hoffset, Option.map_some, if_pos hne]

/-- What the accessor of a scalar field returns fits, as its default does. -/
theorem Documented.scalarField_lt (h : Documented rt) {frame : List UInt8}
    {size vtableOffset d x : Nat} (hd : d < 256 ^ size)
    (hx : rt.scalarField frame size vtableOffset d = some x) : x < 256 ^ size := by
  obtain ⟨field, -, hread⟩ := Option.bind_eq_some_iff.mp hx
  cases field with
  | none =>
    cases hread
    exact hd
  | some pos => exact h.getScalar_lt hread

end Documented

end RedLease.Lib.FlatBuffers
