import Mathlib.Data.List.GetD
import RedLease.Lib.FlatBuffers.Table

/-!
# A builder of FlatBuffers

A runtime that is as documented: the reader of the Go package, and a builder that keeps the fields of
a table as bytes and lays the buffer out when it is asked for it. Its buffers are FlatBuffers, with
the vtable in front of the table; the builder of the Go package also aligns the fields, and writes no
entries for the fields at the end that are omitted.

* `layout`: the finished buffer.
* `layout_field`: a field that was written is found at its bytes.
* **`documented_plainRuntime`**: what is read is what was written.
-/

namespace RedLease.Lib.FlatBuffers

/-! ## The buffer -/

/-- What the fields of a table have for bytes; one that is omitted has none. -/
abbrev Slots := List (Option (List UInt8))

/-- The bytes of the fields, one after the other. -/
def data (slots : Slots) : List UInt8 := slots.flatMap (·.getD [])

/-- Where the fields are in the table, if the first one is at `o`. -/
def entries : Nat → Slots → List Nat
  | _, [] => []
  | o, none :: slots => 0 :: entries o slots
  | o, some bs :: slots => o :: entries (o + bs.length) slots

/-- A vtable: its size, that of the table, and for each field where it is in the table. -/
def vtable (slots : Slots) : List UInt8 :=
  ((slots.length + 2) * 2 :: (4 + (data slots).length) :: entries 4 slots).flatMap (bytesLE 2)

/-- A buffer with one table behind its size: the offset of the table, the vtable, and the table, which
begins with the distance to its vtable. -/
def body (slots : Slots) : List UInt8 :=
  bytesLE 4 ((vtable slots).length + 4) ++
    (vtable slots ++ (bytesLE 4 (vtable slots).length ++ data slots))

/-- The buffer, behind its size. -/
def layout (slots : Slots) : List UInt8 := bytesLE 4 (body slots).length ++ body slots

/-! ## The builder -/

/-- The fields of the table so far. -/
structure Builder where
  slots : Slots
  /-- The struct that is being written. -/
  struct : List UInt8

namespace Builder

variable (b : Builder)

/-- Bytes are put before the struct. -/
def put (bs : List UInt8) : Builder := { b with struct := bs ++ b.struct }

/-- A field is set. -/
def slot (o : Nat) (bs : Option (List UInt8)) : Builder := { b with slots := b.slots.set o bs }

end Builder

/-- No call fails. -/
def plainRuntime : Runtime where
  toReader := goReader
  Builder := Builder
  newBuilder _ := ⟨[], []⟩
  reset _ := ⟨[], []⟩
  startObject _ n := some ⟨List.replicate n none, []⟩
  prependScalarSlot b size o x d := some (b.slot o (if x = d then none else some (bytesLE size x)))
  prep b _ _ := some { b with struct := [] }
  prependScalar b size x := some (b.put (bytesLE size x))
  pad b n := some (b.put (List.replicate n 0))
  offset b := b.struct.length
  prependStructSlot b o _ _ := some (b.slot o (some b.struct))
  endObject b := some (b, 0)
  finishSizePrefixed b _ := some b
  finishedBytes b := some (layout b.slots)

/-! ## What is written -/

/-- The bytes that a part writes. -/
def Part.bytes : Part → List UInt8
  | scalar size x => bytesLE size x
  | padding n => List.replicate n 0

/-- The bytes of a struct, part by part. -/
def structBytes (ps : List Part) : List UInt8 := ps.flatMap Part.bytes

theorem length_structBytes (ps : List Part) : (structBytes ps).length = structSize ps := by
  induction ps with
  | nil => rfl
  | cons p ps ih =>
    have hp : p.bytes.length = p.length := by
      cases p with
      | scalar size x => exact length_bytesLE size x
      | padding n => exact List.length_replicate
    rw [structBytes, List.flatMap_cons, List.length_append, hp]
    exact congrArg (p.length + ·) ih

/-- The bytes of a field; one that has its default is omitted. -/
def Field.bytes : Field → Option (List UInt8)
  | scalar _ size x d => if x = d then none else some (bytesLE size x)
  | struct _ _ _ ps => some (structBytes ps)

/-- The fields of a table are set. -/
def setFields (slots : Slots) (fields : List Field) : Slots :=
  fields.foldl (fun slots f => slots.set f.slot f.bytes) slots

section Written

variable {b : Builder}

theorem prependParts_eq (ps : List Part) :
    plainRuntime.prependParts b ps = some (b.put (structBytes ps)) := by
  induction ps with
  | nil => rfl
  | cons p ps ih =>
    have hbytes : b.put (structBytes (p :: ps)) = (b.put (structBytes ps)).put p.bytes := by
      unfold Builder.put
      rw [← List.append_assoc]
      rfl
    rw [hbytes]
    show (plainRuntime.prependParts b ps).bind (plainRuntime.prependPart · p) = _
    rw [ih]
    cases p <;> rfl

theorem addField_eq (f : Field) :
    ∃ bs, plainRuntime.addField b f = some ⟨b.slots.set f.slot f.bytes, bs⟩ := by
  cases f with
  | scalar o size x d => exact ⟨_, rfl⟩
  | struct o align size ps =>
    refine ⟨structBytes ps, ?_⟩
    show ((plainRuntime.prependParts ⟨b.slots, []⟩ ps).map _).bind _ = _
    rw [prependParts_eq]
    show some (Builder.mk (b.slots.set o (some (structBytes ps ++ []))) (structBytes ps ++ [])) = _
    rw [List.append_nil]
    rfl

theorem addFields_eq (fields : List Field) :
    ∃ bs, plainRuntime.addFields b fields = some ⟨setFields b.slots fields, bs⟩ := by
  induction fields generalizing b with
  | nil => exact ⟨_, rfl⟩
  | cons f fields ih =>
    obtain ⟨bs, hadd⟩ := addField_eq (b := b) f
    obtain ⟨bs', hadds⟩ := ih (b := ⟨b.slots.set f.slot f.bytes, bs⟩)
    refine ⟨bs', ?_⟩
    show (plainRuntime.addField b f).bind (plainRuntime.addFields · fields) = _
    rw [hadd]
    exact hadds

/-- The fields of a table of `n` fields. -/
def tableSlots (n : Nat) (fields : List Field) : Slots := setFields (List.replicate n none) fields

theorem buildTable_eq (n : Nat) (fields : List Field) :
    ∃ bs, plainRuntime.buildTable b n fields = some ⟨tableSlots n fields, bs⟩ := by
  obtain ⟨bs, hadd⟩ := addFields_eq (b := ⟨List.replicate n none, []⟩) fields
  refine ⟨bs, ?_⟩
  show (plainRuntime.addFields ⟨List.replicate n none, []⟩ fields).bind _ = _
  rw [hadd]
  rfl

theorem frame_eq (n : Nat) (fields : List Field) :
    plainRuntime.frame n fields = layout (tableSlots n fields) := by
  obtain ⟨bs, hbuild⟩ := buildTable_eq (b := ⟨[], []⟩) n fields
  show ((plainRuntime.buildTable ⟨[], []⟩ n fields).bind _).getD [] = _
  rw [hbuild]
  rfl

end Written

/-! ## The fields that are set -/

theorem length_setFields (slots : Slots) (fields : List Field) :
    (setFields slots fields).length = slots.length := by
  induction fields generalizing slots with
  | nil => rfl
  | cons f fields ih => exact (ih _).trans List.length_set

theorem getD_set_ne {slots : Slots} {i j : Nat} (h : i ≠ j) (bs : Option (List UInt8)) :
    (slots.set i bs).getD j none = slots.getD j none := by
  rw [List.getD_eq_getElem?_getD, List.getD_eq_getElem?_getD, List.getElem?_set_ne h]

theorem setFields_of_not_mem {slots : Slots} {fields : List Field} {i : Nat}
    (h : i ∉ fields.map Field.slot) : (setFields slots fields).getD i none = slots.getD i none := by
  induction fields generalizing slots with
  | nil => rfl
  | cons f fields ih =>
    rw [List.map_cons, List.mem_cons, not_or] at h
    exact (ih h.2).trans (getD_set_ne (Ne.symm h.1) _)

theorem setFields_of_mem {slots : Slots} {fields : List Field}
    (hnodup : (fields.map Field.slot).Nodup) {f : Field} (hf : f ∈ fields)
    (hlt : f.slot < slots.length) : (setFields slots fields).getD f.slot none = f.bytes := by
  induction fields generalizing slots with
  | nil => cases hf
  | cons g fields ih =>
    rw [List.map_cons, List.nodup_cons] at hnodup
    rcases List.mem_cons.mp hf with rfl | hf
    · refine (setFields_of_not_mem hnodup.1).trans ?_
      rw [List.getD_eq_getElem _ _ (by rwa [List.length_set]), List.getElem_set_self]
    · exact ih hnodup.2 hf (by rwa [List.length_set])

theorem length_data_set (slots : Slots) (i : Nat) (bs : Option (List UInt8)) :
    (data (slots.set i bs)).length ≤ (data slots).length + (bs.getD []).length := by
  induction slots generalizing i with
  | nil => exact Nat.zero_le _
  | cons s slots ih =>
    unfold data at ih ⊢
    cases i with
    | zero =>
      rw [List.set_cons_zero, List.flatMap_cons, List.flatMap_cons, List.length_append,
        List.length_append]
      omega
    | succ i =>
      have := ih i
      rw [List.set_cons_succ, List.flatMap_cons, List.flatMap_cons, List.length_append,
        List.length_append]
      omega

theorem Field.Wf.length_le {f : Field} (h : f.Wf) : (f.bytes.getD []).length ≤ f.room := by
  cases f with
  | scalar o size x d =>
    show ((if x = d then none else some (bytesLE size x)).getD []).length ≤ 2 * size
    split_ifs
    · exact Nat.zero_le _
    · rw [Option.getD_some, length_bytesLE]
      omega
  | struct o align size ps =>
    show (structBytes ps).length ≤ size + align
    rw [length_structBytes, h.2.2.1]
    exact Nat.le_add_right ..

theorem length_data_setFields (slots : Slots) {fields : List Field} (h : ∀ f ∈ fields, f.Wf) :
    (data (setFields slots fields)).length ≤ (data slots).length + room fields := by
  induction fields generalizing slots with
  | nil => exact Nat.le_add_right ..
  | cons f fields ih =>
    obtain ⟨hf, hrest⟩ := List.forall_mem_cons.mp h
    have hset := length_data_set slots f.slot f.bytes
    have hle := hf.length_le
    have hdata := ih (slots.set f.slot f.bytes) hrest
    rw [room, List.map_cons, List.sum_cons]
    unfold room at hdata
    show (data (setFields (slots.set f.slot f.bytes) fields)).length ≤ _
    omega

theorem data_replicate (n : Nat) : data (List.replicate n none) = [] := by
  rw [data, List.flatMap_eq_nil_iff]
  intro bs hbs
  rw [List.eq_of_mem_replicate hbs]
  rfl

/-! ## Reading the buffer -/

section Layout

variable {slots : Slots} {i : Nat} {bs : List UInt8}

theorem length_entries (o : Nat) (slots : Slots) : (entries o slots).length = slots.length := by
  induction slots generalizing o with
  | nil => rfl
  | cons s slots ih => cases s <;> exact congrArg (· + 1) (ih _)

theorem entries_none (o : Nat) (h : slots.getD i none = none) : (entries o slots).getD i 0 = 0 := by
  induction slots generalizing o i with
  | nil => rfl
  | cons s slots ih =>
    cases i with
    | zero =>
      cases s with
      | none => rfl
      | some bs => cases h
    | succ i => cases s <;> exact ih _ h

theorem entries_some (o : Nat) (h : slots.getD i none = some bs) :
    ∃ k, (entries o slots).getD i 0 = o + k ∧ k ≤ (data slots).length ∧
      bs <+: (data slots).drop k := by
  induction slots generalizing o i with
  | nil => cases h
  | cons s slots ih =>
    cases s with
    | none =>
      cases i with
      | zero => cases h
      | succ i => exact ih _ h
    | some cs =>
      have hdata : data (some cs :: slots) = cs ++ data slots := rfl
      cases i with
      | zero =>
        cases h
        exact ⟨0, rfl, Nat.zero_le _, hdata ▸ List.prefix_append ..⟩
      | succ i =>
        obtain ⟨k, hk, hle, hbytes⟩ := ih (o + cs.length) h
        refine ⟨cs.length + k, ?_, ?_, ?_⟩
        · rw [← Nat.add_assoc, ← hk]
          rfl
        · rw [hdata, List.length_append]
          omega
        · rw [hdata, ← List.drop_drop, List.drop_left]
          exact hbytes

theorem length_vtable (slots : Slots) : (vtable slots).length = 2 * (slots.length + 2) := by
  rw [vtable, length_flatMap_bytesLE, List.length_cons, List.length_cons, length_entries]

/-- Where the table starts. -/
def tablePos (slots : Slots) : Nat := 8 + 2 * (slots.length + 2)

theorem length_layout (slots : Slots) :
    (layout slots).length = tablePos slots + 4 + (data slots).length := by
  simp only [layout, body, tablePos, List.length_append, length_bytesLE, length_vtable]
  omega

theorem drop_layout (slots : Slots) :
    (layout slots).drop 4 = body slots ∧
      vtable slots <+: (layout slots).drop 8 ∧
      (layout slots).drop (tablePos slots) = bytesLE 4 (vtable slots).length ++ data slots := by
  have h₄ : (layout slots).drop 4 = body slots := List.drop_left' (length_bytesLE ..)
  have h₈ : (layout slots).drop 8 =
      vtable slots ++ (bytesLE 4 (vtable slots).length ++ data slots) := by
    rw [show 8 = 4 + 4 from rfl, ← List.drop_drop, h₄]
    exact List.drop_left' (length_bytesLE ..)
  refine ⟨h₄, ?_, ?_⟩
  · rw [h₈]
    exact List.prefix_append ..
  · rw [tablePos, ← List.drop_drop, h₈]
    exact List.drop_left' (length_vtable _)

theorem root_layout (hsmall : (layout slots).length < 2 ^ 16) :
    goReader.root (layout slots) = some (tablePos slots) := by
  have hlen := length_layout slots
  unfold tablePos at hlen ⊢
  have hroot : getScalar (layout slots) 4 4 = some ((vtable slots).length + 4) := by
    refine getScalar_eq ?_ (by omega) (by rw [length_vtable]; omega)
    rw [(drop_layout slots).1]
    exact List.prefix_append ..
  show (getScalar (layout slots) 4 4).map (fun n => add32 n 4) = _
  rw [hroot, Option.map_some, length_vtable, add32_of_lt (by omega)]
  congr 1
  omega

theorem tableOffset_layout (hsmall : (layout slots).length < 2 ^ 16) (i : Nat) :
    tableOffset (layout slots) (tablePos slots) (4 + 2 * i) =
      some ((entries 4 slots).getD i 0) := by
  have hlen := length_layout slots
  have htable : tablePos slots = 8 + 2 * (slots.length + 2) := rfl
  obtain ⟨-, hvtable, hpos⟩ := drop_layout slots
  have hsoffset : getScalar (layout slots) 4 (tablePos slots) = some (2 * (slots.length + 2)) := by
    refine getScalar_eq ?_ (by omega) (by omega)
    rw [hpos, length_vtable]
    exact List.prefix_append ..
  have hsize : getScalar (layout slots) 2 8 = some ((slots.length + 2) * 2) :=
    getScalar_entry (i := 0) hvtable (by omega) (Nat.succ_pos _)
      (by show (slots.length + 2) * 2 < 2 ^ 16; omega)
  have hback : sub32 (tablePos slots) (2 * (slots.length + 2)) = 8 := by
    unfold sub32
    omega
  rw [tableOffset_eq hsoffset hback hsize]
  split_ifs with hi
  · have hmod : add32 8 (4 + 2 * i) = 8 + 2 * (i + 2) := by
      rw [add32_of_lt (by omega)]
      omega
    have hentry : (entries 4 slots).getD i 0 < 2 ^ 16 := by
      cases hs : slots.getD i none with
      | none =>
        rw [entries_none 4 hs]
        decide
      | some bs =>
        obtain ⟨k, hk, hle, -⟩ := entries_some 4 hs
        omega
    rw [hmod]
    refine getScalar_entry (i := i + 2) hvtable (by omega) ?_ hentry
    rw [List.length_cons, List.length_cons, length_entries]
    omega
  · rw [List.getD_eq_default _ _ (by rw [length_entries]; omega)]

/-- **A field that was written is found at its bytes.** -/
theorem layout_field (hsmall : (layout slots).length < 2 ^ 16) (hi : slots.getD i none = some bs) :
    ∃ o, tableOffset (layout slots) (tablePos slots) (4 + 2 * i) = some o ∧ o ≠ 0 ∧
      bs <+: (layout slots).drop (add32 o (tablePos slots)) ∧
      add32 o (tablePos slots) ≤ (layout slots).length := by
  have hlen := length_layout slots
  obtain ⟨k, hk, hle, hbytes⟩ := entries_some 4 hi
  have hadd : add32 ((entries 4 slots).getD i 0) (tablePos slots) = tablePos slots + 4 + k := by
    rw [hk, add32_of_lt (by omega)]
    omega
  refine ⟨_, tableOffset_layout hsmall i, by omega, ?_, by omega⟩
  rw [hadd, ← List.drop_drop, ← List.drop_drop, (drop_layout slots).2.2,
    List.drop_left' (length_bytesLE ..)]
  exact hbytes

end Layout

/-- A scalar of a struct that stands at `pos`, behind the parts `before`. -/
theorem getScalar_part {frame : List UInt8} {pos k x : Nat} (before after : List Part)
    (h : structBytes (before ++ .scalar k x :: after) <+: frame.drop pos) (hpos : pos ≤ frame.length)
    (hsmall : frame.length < 2 ^ 16) (hx : x < 256 ^ k) :
    getScalar frame k (add32 pos (structSize before)) = some x := by
  obtain ⟨tail, htail⟩ := h
  have hbytes : structBytes (before ++ .scalar k x :: after) =
      structBytes before ++ (bytesLE k x ++ structBytes after) := by
    unfold structBytes
    rw [List.flatMap_append, List.flatMap_cons]
    rfl
  rw [hbytes, List.append_assoc, List.append_assoc] at htail
  have hlen := congrArg List.length htail
  rw [List.length_append, length_structBytes, List.length_drop] at hlen
  have hread : bytesLE k x <+: frame.drop (pos + structSize before) := by
    rw [← List.drop_drop, ← htail, List.drop_left' (length_structBytes before)]
    exact List.prefix_append ..
  rw [add32_of_lt (by omega)]
  exact getScalar_eq hread (by omega) hx

theorem Aligned.lt {align k x : Nat} {before after : List Part}
    (h : Aligned align (before ++ .scalar k x :: after)) : x < 256 ^ k := by
  induction before with
  | nil => exact h.2.2.2.1
  | cons p before ih =>
    cases p with
    | scalar => exact ih h.2.2.2.2
    | padding => exact ih h

/-! ## The promises -/

section Documented

variable {n : Nat} {fields : List Field}

theorem length_tableSlots (n : Nat) (fields : List Field) : (tableSlots n fields).length = n :=
  (length_setFields _ _).trans List.length_replicate

theorem WellFormed.length_le (h : WellFormed n fields) :
    (layout (tableSlots n fields)).length ≤ 2 * n + room fields + 16 := by
  have hdata := length_data_setFields (List.replicate n none) h.wf
  rw [data_replicate] at hdata
  rw [length_layout, tablePos, length_tableSlots]
  show _ + (data (setFields _ _)).length ≤ _
  rw [List.length_nil] at hdata
  omega

theorem WellFormed.length_lt (h : WellFormed n fields) :
    (layout (tableSlots n fields)).length < 2 ^ 16 := by
  have := h.length_le
  have := h.small
  omega

theorem WellFormed.slot_eq (h : WellFormed n fields) {f : Field} (hf : f ∈ fields) :
    (tableSlots n fields).getD f.slot none = f.bytes :=
  setFields_of_mem h.nodup hf (by rw [List.length_replicate]; exact h.slot f hf)

theorem WellFormed.omitted (h : WellFormed n fields) {slot : Nat} (ho : Omitted fields slot) :
    (tableSlots n fields).getD slot none = none := by
  by_cases hmem : slot ∈ fields.map Field.slot
  · obtain ⟨f, hf, rfl⟩ := List.mem_map.mp hmem
    obtain ⟨size, x, hscalar⟩ := ho f hf rfl
    rw [h.slot_eq hf, hscalar]
    exact if_pos rfl
  · refine (setFields_of_not_mem hmem).trans ?_
    rw [List.getD_eq_getElem?_getD, List.getElem?_replicate]
    split_ifs <;> rfl

end Documented

/-- **The runtime is as documented.** -/
theorem documented_plainRuntime : Documented plainRuntime where
  builds {n fields} _ b _ := by
    obtain ⟨bs, hbuild⟩ := buildTable_eq (b := b) n fields
    rw [frame_eq]
    exact ⟨_, hbuild, rfl⟩
  sizePrefix {n fields} _ := by
    rw [frame_eq]
    refine ⟨body _, rfl, ?_⟩
    rw [body, List.length_append, length_bytesLE]
    exact Nat.le_add_right ..
  length_le {n fields} h := by
    rw [frame_eq]
    exact Nat.le_trans h.length_le (by omega)
  root {n fields} h := by
    rw [frame_eq]
    exact ⟨_, root_layout h.length_lt⟩
  omitted {n fields slot pos} h ho hroot := by
    rw [frame_eq] at hroot ⊢
    cases (root_layout h.length_lt).symm.trans hroot
    exact (tableOffset_layout h.length_lt slot).trans
      (congrArg some (entries_none 4 (h.omitted ho)))
  scalar {n fields slot size x d pos} h hf hd hroot := by
    rw [frame_eq] at hroot ⊢
    cases (root_layout h.length_lt).symm.trans hroot
    obtain ⟨o, hoffset, hne, hat, hpos⟩ :=
      layout_field h.length_lt ((h.slot_eq hf).trans (if_neg hd))
    exact ⟨o, hoffset, hne, getScalar_eq hat hpos (h.wf _ hf).2⟩
  struct {n fields slot align size ps pos} h hf hroot := by
    rw [frame_eq] at hroot ⊢
    cases (root_layout h.length_lt).symm.trans hroot
    obtain ⟨o, hoffset, hne, hat, hpos⟩ := layout_field h.length_lt (h.slot_eq hf)
    refine ⟨o, hoffset, hne, ?_⟩
    rintro before k x after rfl
    exact getScalar_part before after hat hpos h.length_lt (h.wf _ hf).2.1.lt
  getScalar_lt := getScalar_lt

end RedLease.Lib.FlatBuffers
