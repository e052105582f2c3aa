import RedLease.Lib.Bufio
import RedLease.Server.Codec

/-!
# The frame reader

`FrameReader` over a `bufio.Reader` of 64 KiB. A frame is handed out as a view into the buffer, so
its bytes are discarded only by the next `ReadFrame` (`pendingBytes`).

* `ReadFrame` on a buffered stream is `readFrame`, the function by which the server's model reads a
  frame off the bytes that have arrived (`FrameReader.readFrame_spec`).
* What a stream consists of is said without the reader: `Splits stream frames ending`. Every stream
  has exactly one such description (`Splits.unique`).
* **`FrameReader.readFrames_splits`**: reading to the end returns it, whatever the `Read` calls cut
  the stream into.
-/

namespace RedLease.Transport

open RedLease.Lib RedLease.Server

/-! ## Reading -/

/-- `connectionReadBufferBytes`. -/
def connectionReadBufferBytes : Nat := 64 * 1024

/-- The error of a `ReadFrame`. -/
inductive ReadError where
  | buffer (err : Bufio.Error)
  | unexpectedEOF
  | malformedFrame (payloadSize : Nat)
  deriving DecidableEq, Repr

/-- `FrameReader`; `pendingBytes` are those of the last frame that was returned. -/
structure FrameReader where
  buffer : Bufio.Reader UInt8
  pendingBytes : Nat

/-- `binary.LittleEndian.Uint32` of the first four bytes. -/
def uint32 : List UInt8 → Nat
  | b₀ :: b₁ :: b₂ :: b₃ :: _ => littleEndian b₀ b₁ b₂ b₃
  | _ => 0

/-- `frameReadError`. -/
def frameReadError (partialBytes : List UInt8) (err : Bufio.Error) : ReadError :=
  if err = .eof ∧ partialBytes ≠ [] then .unexpectedEOF else .buffer err

namespace FrameReader

/-- `NewFrameReader` on a connection whose `Read` calls give `src`. -/
def newFrameReader (src : List (List UInt8)) (eager : Bool) : FrameReader :=
  ⟨⟨connectionReadBufferBytes, [], src, eager, none⟩, 0⟩

/-- `ReadFrame` once nothing is pending. -/
def nextFrame (buffer : Bufio.Reader UInt8) : FrameReader × Except ReadError (List UInt8) :=
  match buffer.peek sizeUint32 with
  | (buffer, found, some err) => (⟨buffer, 0⟩, .error (frameReadError found err))
  | (buffer, head, none) =>
    let payloadSize := uint32 head
    if payloadSize < sizeUint32 ∨ maxFrameBytes - sizeUint32 < payloadSize then
      (⟨buffer, 0⟩, .error (.malformedFrame payloadSize))
    else
      match buffer.peek (sizeUint32 + payloadSize) with
      | (buffer, found, some err) => (⟨buffer, 0⟩, .error (frameReadError found err))
      | (buffer, frame, none) => (⟨buffer, sizeUint32 + payloadSize⟩, .ok frame)

/-- `ReadFrame`. -/
def readFrame (r : FrameReader) : FrameReader × Except ReadError (List UInt8) :=
  match r.buffer.discard r.pendingBytes with
  | (buffer, some err) => (⟨buffer, r.pendingBytes⟩, .error (.buffer err))
  | (buffer, none) => nextFrame buffer

/-- `ReadFrame` again and again: the frames, and the error that ends them. -/
def readFrames : Nat → FrameReader → List (List UInt8) × Option ReadError
  | 0, _ => ([], none)
  | fuel + 1, r =>
    match r.readFrame with
    | (_, .error err) => ([], some err)
    | (r, .ok frame) =>
      let (frames, ending) := readFrames fuel r
      (frame :: frames, ending)

/-- What is left of the stream after the frame that was handed out. -/
def remaining (r : FrameReader) : List UInt8 := r.buffer.unread.drop r.pendingBytes

/-- The buffer has its size, and holds the pending frame. -/
structure Good (r : FrameReader) : Prop where
  buffer : r.buffer.Good
  size : r.buffer.size = connectionReadBufferBytes
  pending : r.pendingBytes ≤ r.buffer.buf.length

end FrameReader

/-! ## `ReadFrame` and the stream -/

theorem uint32_append {u : List UInt8} (hlen : sizeUint32 ≤ u.length) (rest : List UInt8) :
    uint32 (u ++ rest) = uint32 u := by
  match u, hlen with
  | _ :: _ :: _ :: _ :: _, _ => rfl

theorem uint32_take {u : List UInt8} {n : Nat} (hn : sizeUint32 ≤ n) (hlen : n ≤ u.length) :
    uint32 (u.take n) = uint32 u := by
  have hhead : sizeUint32 ≤ (u.take n).length := by
    rw [List.length_take]
    omega
  rw [← uint32_append hhead (u.drop n), List.take_append_drop]

/-- `readFrame` by the length of the stream and its first four bytes. -/
theorem readFrame_eq (u : List UInt8) :
    readFrame u =
      if u.length < sizeUint32 then .incomplete
      else if uint32 u < sizeUint32 ∨ maxFrameBytes - sizeUint32 < uint32 u then .invalid (uint32 u)
      else if u.length < sizeUint32 + uint32 u then .incomplete
      else .complete (u.take (sizeUint32 + uint32 u)) (u.drop (sizeUint32 + uint32 u)) := by
  match u with
  | [] => rfl
  | [_] => rfl
  | [_, _] => rfl
  | [_, _, _] => rfl
  | b₀ :: b₁ :: b₂ :: b₃ :: rest =>
    have hlen : ¬ (b₀ :: b₁ :: b₂ :: b₃ :: rest).length < sizeUint32 := by simp [sizeUint32]
    have hshort : (b₀ :: b₁ :: b₂ :: b₃ :: rest).length <
          sizeUint32 + uint32 (b₀ :: b₁ :: b₂ :: b₃ :: rest) ↔
        rest.length < littleEndian b₀ b₁ b₂ b₃ := by
      simp only [List.length_cons, sizeUint32, uint32]
      omega
    rw [if_neg hlen, if_congr hshort rfl rfl]
    simp only [readFrame, uint32, sizeUint32, Nat.add_comm 4, List.take_succ_cons,
      List.drop_succ_cons]
    rfl

namespace FrameReader

variable {r : FrameReader}

/-- What `ReadFrame` answers when the stream has no complete frame to come. -/
def atEnd (rest : List UInt8) : ReadError := if rest = [] then .buffer .eof else .unexpectedEOF

theorem frameReadError_eof (rest : List UInt8) : frameReadError rest .eof = atEnd rest := by
  unfold frameReadError atEnd
  by_cases hrest : rest = []
  · rw [if_neg (fun h => h.2 hrest), if_pos hrest]
  · rw [if_pos ⟨rfl, hrest⟩, if_neg hrest]

/-- `ReadFrame` does what `readFrame` finds on the rest of the stream. -/
def Reads (rest : List UInt8) (out : FrameReader × Except ReadError (List UInt8)) : Prop :=
  match Server.readFrame rest with
  | .incomplete => out.2 = .error (atEnd rest)
  | .invalid payloadSize => out.2 = .error (.malformedFrame payloadSize)
  | .complete frame rest' => out.2 = .ok frame ∧ out.1.Good ∧ out.1.remaining = rest'

theorem nextFrame_spec {buffer : Bufio.Reader UInt8} (hgood : buffer.Good)
    (hsize : buffer.size = connectionReadBufferBytes) : Reads buffer.unread (nextFrame buffer) := by
  have hfour : sizeUint32 ≤ buffer.size := by
    rw [hsize]
    decide
  unfold Reads
  rw [readFrame_eq]
  by_cases hlen : buffer.unread.length < sizeUint32
  · obtain ⟨buffer', hpeek⟩ := Bufio.Reader.peek_short hfour hgood hlen
    rw [if_pos hlen, nextFrame, hpeek]
    exact congrArg _ (frameReadError_eof _)
  obtain ⟨buffer', hpeek, hahead, -⟩ :=
    Bufio.Reader.peek_of_le hfour hgood (Nat.le_of_not_lt hlen)
  rw [if_neg hlen, nextFrame, hpeek]
  simp only [uint32_take (Nat.le_refl _) (Nat.le_of_not_lt hlen)]
  by_cases hbad : uint32 buffer.unread < sizeUint32 ∨
      maxFrameBytes - sizeUint32 < uint32 buffer.unread
  · rw [if_pos hbad, if_pos hbad]
  have hframe : sizeUint32 + uint32 buffer.unread ≤ buffer'.size := by
    rw [hahead.size, hsize]
    simp only [sizeUint32, maxFrameBytes, connectionReadBufferBytes] at hbad ⊢
    omega
  rw [if_neg hbad, if_neg hbad]
  by_cases hshort : buffer.unread.length < sizeUint32 + uint32 buffer.unread
  · obtain ⟨buffer'', hpeek'⟩ :=
      Bufio.Reader.peek_short hframe hahead.good (hahead.unread.symm ▸ hshort)
    rw [if_pos hshort, hpeek', hahead.unread]
    exact congrArg _ (frameReadError_eof _)
  · obtain ⟨buffer'', hpeek', hahead', hbuf⟩ :=
      Bufio.Reader.peek_of_le hframe hahead.good (hahead.unread.symm ▸ Nat.le_of_not_lt hshort)
    rw [if_neg hshort, hpeek', hahead.unread]
    refine ⟨rfl, ⟨hahead'.good, ?_, hbuf⟩, ?_⟩
    · exact hahead'.size.trans (hahead.size.trans hsize)
    · simp only [remaining, hahead'.unread, hahead.unread]

/-- `ReadFrame`: the frame handed out before is discarded first. -/
theorem readFrame_spec (hgood : r.Good) : Reads r.remaining r.readFrame := by
  have hrest : ({ r.buffer with buf := r.buffer.buf.drop r.pendingBytes } :
      Bufio.Reader UInt8).unread = r.remaining := by
    simp only [remaining, Bufio.Reader.unread, List.drop_append_of_le_length hgood.pending]
  rw [readFrame, Bufio.Reader.discard_buffered hgood.pending, ← hrest]
  exact nextFrame_spec (hgood.buffer.drop _) hgood.size

end FrameReader

/-! ## What a stream consists of -/

/-- A frame: its size, within the limits, and so many bytes. -/
structure Admissible (frame : List UInt8) : Prop where
  length : frame.length = 4 + uint32 frame
  min : 4 ≤ uint32 frame
  max : uint32 frame ≤ 1020

/-- How `ReadFrame` has to end when `rest` is left and no frame starts it. -/
def EndsAt (rest : List UInt8) : ReadError → Prop
  | .buffer .eof => rest = []
  | .unexpectedEOF => rest ≠ [] ∧
      (rest.length < 4 ∨ (4 ≤ uint32 rest ∧ uint32 rest ≤ 1020) ∧ rest.length < 4 + uint32 rest)
  | .malformedFrame payloadSize =>
    4 ≤ rest.length ∧ uint32 rest = payloadSize ∧ (payloadSize < 4 ∨ 1020 < payloadSize)
  | _ => False

/-- The stream is these frames, and the bytes after them end it so. -/
def Splits (stream : List UInt8) (frames : List (List UInt8)) (ending : ReadError) : Prop :=
  ∃ rest, stream = frames.flatten ++ rest ∧ (∀ frame ∈ frames, Admissible frame) ∧
    EndsAt rest ending

namespace FrameReader

variable {r : FrameReader}

/-- What `readFrame` does not find complete ends the stream. -/
theorem endsAt_incomplete {rest : List UInt8} (hread : Server.readFrame rest = .incomplete) :
    EndsAt rest (atEnd rest) := by
  rw [readFrame_eq] at hread
  unfold atEnd
  by_cases hrest : rest = []
  · rw [if_pos hrest]
    exact hrest
  rw [if_neg hrest]
  refine ⟨hrest, ?_⟩
  by_cases hlen : rest.length < sizeUint32
  · exact .inl hlen
  rw [if_neg hlen] at hread
  by_cases hbad : uint32 rest < sizeUint32 ∨ maxFrameBytes - sizeUint32 < uint32 rest
  · rw [if_pos hbad] at hread
    cases hread
  rw [if_neg hbad] at hread
  by_cases hshort : rest.length < sizeUint32 + uint32 rest
  · rw [not_or, Nat.not_lt, Nat.not_lt] at hbad
    exact .inr ⟨hbad, hshort⟩
  · rw [if_neg hshort] at hread
    cases hread

theorem endsAt_invalid {rest : List UInt8} {payloadSize : Nat}
    (hread : Server.readFrame rest = .invalid payloadSize) :
    EndsAt rest (.malformedFrame payloadSize) := by
  rw [readFrame_eq] at hread
  split_ifs at hread with hlen hbad
  cases hread
  exact ⟨Nat.le_of_not_lt hlen, rfl, hbad⟩

/-- A complete frame is admissible, and what is left follows it. -/
theorem admissible_complete {stream frame rest : List UInt8}
    (hread : Server.readFrame stream = .complete frame rest) :
    Admissible frame ∧ stream = frame ++ rest := by
  rw [readFrame_eq] at hread
  split_ifs at hread with hlen hbad hshort
  cases hread
  rw [not_or, Nat.not_lt, Nat.not_lt] at hbad
  have hsize := uint32_take (Nat.le_add_right sizeUint32 (uint32 stream)) (Nat.le_of_not_lt hshort)
  refine ⟨⟨?_, ?_, ?_⟩, (List.take_append_drop _ _).symm⟩
  · rw [hsize, List.length_take, Nat.min_eq_left (Nat.le_of_not_lt hshort)]
    rfl
  · rw [hsize]
    exact hbad.1
  · rw [hsize]
    exact hbad.2

/-- Reading to the end takes at most one call more than the stream has bytes. -/
theorem readFrames_spec (fuel : Nat) (hgood : r.Good) (hfuel : r.remaining.length < fuel) :
    ∃ frames ending, readFrames fuel r = (frames, some ending) ∧
      Splits r.remaining frames ending := by
  induction fuel generalizing r with
  | zero => exact absurd hfuel (Nat.not_lt_zero _)
  | succ fuel ih =>
    have hspec := readFrame_spec hgood
    unfold Reads at hspec
    unfold readFrames
    rcases hnext : r.readFrame with ⟨r', out⟩
    rw [hnext] at hspec
    cases hread : Server.readFrame r.remaining with
    | incomplete =>
      rw [hread] at hspec
      dsimp only at hspec
      subst hspec
      exact ⟨[], _, rfl, r.remaining, rfl, nofun, endsAt_incomplete hread⟩
    | invalid payloadSize =>
      rw [hread] at hspec
      dsimp only at hspec
      subst hspec
      exact ⟨[], _, rfl, r.remaining, rfl, nofun, endsAt_invalid hread⟩
    | complete frame rest =>
      rw [hread] at hspec
      obtain ⟨hout, hgood', hrest⟩ := hspec
      dsimp only at hout
      subst hout
      obtain ⟨hadm, hstream⟩ := admissible_complete hread
      have hlen : r'.remaining.length < fuel := by
        have hlength := congrArg List.length hstream
        rw [List.length_append, hadm.length] at hlength
        rw [hrest]
        omega
      obtain ⟨frames, ending, hframes, last, hlast, hall, hend⟩ := ih hgood' hlen
      refine ⟨frame :: frames, ending, ?_, last, ?_, ?_, hend⟩
      · simp only [hframes]
      · rw [hstream, ← hrest, hlast, List.flatten_cons, List.append_assoc]
      · exact List.forall_mem_cons.mpr ⟨hadm, hall⟩

end FrameReader

/-! ## A stream is split in one way -/

theorem Admissible.readFrame_append {frame : List UInt8} (hadm : Admissible frame)
    (rest : List UInt8) : readFrame (frame ++ rest) = .complete frame rest := by
  have hlength := hadm.length
  have hsize : uint32 (frame ++ rest) = uint32 frame :=
    uint32_append (by simp only [sizeUint32]; omega) rest
  have hmin := hadm.min
  have hmax := hadm.max
  have hlen : ¬ (frame ++ rest).length < sizeUint32 + uint32 frame := by
    rw [List.length_append, hlength]
    simp only [sizeUint32]
    omega
  rw [readFrame_eq, hsize, if_neg (fun h => hlen (Nat.lt_add_right _ h)),
    if_neg (by simp only [sizeUint32, maxFrameBytes]; omega), if_neg hlen]
  rw [show sizeUint32 + uint32 frame = frame.length from hlength.symm, List.take_left,
    List.drop_left]

/-- An ending is what `readFrame` finds. -/
theorem EndsAt.readFrame_eq {rest : List UInt8} {ending : ReadError} (hend : EndsAt rest ending) :
    readFrame rest = .incomplete ∧ ending = FrameReader.atEnd rest ∨
      ∃ payloadSize, readFrame rest = .invalid payloadSize ∧
        ending = .malformedFrame payloadSize := by
  rw [Transport.readFrame_eq]
  match ending, hend with
  | .buffer .eof, hrest =>
    have hnil : rest = [] := hrest
    subst hnil
    exact .inl ⟨rfl, rfl⟩
  | .unexpectedEOF, ⟨hrest, hshort⟩ =>
    refine .inl ⟨?_, (if_neg hrest).symm⟩
    by_cases hlen : rest.length < sizeUint32
    · exact if_pos hlen
    obtain ⟨⟨hmin, hmax⟩, hlast⟩ := hshort.resolve_left hlen
    exact (if_neg hlen).trans <|
      (if_neg (by simp only [sizeUint32, maxFrameBytes]; omega)).trans (if_pos hlast)
  | .malformedFrame payloadSize, ⟨hlen, hsize, hbad⟩ =>
    subst hsize
    exact .inr ⟨_, (if_neg (Nat.not_lt.mpr hlen)).trans (if_pos hbad), rfl⟩

theorem EndsAt.unique {rest : List UInt8} {ending ending' : ReadError}
    (h : EndsAt rest ending) (h' : EndsAt rest ending') : ending = ending' := by
  rcases h.readFrame_eq with ⟨hread, hend⟩ | ⟨payloadSize, hread, hend⟩
  · rcases h'.readFrame_eq with ⟨-, hend'⟩ | ⟨payloadSize', hread', -⟩
    · exact hend.trans hend'.symm
    · cases hread.symm.trans hread'
  · rcases h'.readFrame_eq with ⟨hread', -⟩ | ⟨payloadSize', hread', hend'⟩
    · cases hread.symm.trans hread'
    · cases hread.symm.trans hread'
      exact hend.trans hend'.symm

theorem Splits.endsAt {stream : List UInt8} {ending : ReadError} (h : Splits stream [] ending) :
    EndsAt stream ending := by
  obtain ⟨rest, hstream, -, hend⟩ := h
  rw [hstream]
  exact hend

/-- The first frame of a stream is the one that `readFrame` finds. -/
theorem Splits.readFrame_eq {stream frame : List UInt8} {frames : List (List UInt8)}
    {ending : ReadError} (h : Splits stream (frame :: frames) ending) :
    ∃ rest, readFrame stream = .complete frame rest ∧ Splits rest frames ending := by
  obtain ⟨last, hstream, hall, hend⟩ := h
  obtain ⟨hframe, hframes⟩ := List.forall_mem_cons.mp hall
  refine ⟨frames.flatten ++ last, ?_, last, rfl, hframes, hend⟩
  rw [hstream, List.flatten_cons, List.append_assoc]
  exact hframe.readFrame_append _

theorem EndsAt.not_complete {stream frame rest : List UInt8} {ending : ReadError}
    (h : EndsAt stream ending) : readFrame stream ≠ .complete frame rest := by
  intro hread
  rcases h.readFrame_eq with ⟨hread', -⟩ | ⟨payloadSize, hread', -⟩
  · cases hread.symm.trans hread'
  · cases hread.symm.trans hread'

theorem Splits.unique {stream : List UInt8} {frames frames' : List (List UInt8)}
    {ending ending' : ReadError} (h : Splits stream frames ending)
    (h' : Splits stream frames' ending') : frames = frames' ∧ ending = ending' := by
  induction frames generalizing stream frames' with
  | nil =>
    cases frames' with
    | nil => exact ⟨rfl, h.endsAt.unique h'.endsAt⟩
    | cons frame' frames' =>
      obtain ⟨rest', hread', -⟩ := h'.readFrame_eq
      exact absurd hread' h.endsAt.not_complete
  | cons frame frames ih =>
    obtain ⟨rest, hread, hrest⟩ := h.readFrame_eq
    cases frames' with
    | nil => exact absurd hread h'.endsAt.not_complete
    | cons frame' frames' =>
      obtain ⟨rest', hread', hrest'⟩ := h'.readFrame_eq
      cases hread.symm.trans hread'
      obtain ⟨hframes, hend⟩ := ih hrest hrest'
      exact ⟨congrArg _ hframes, hend⟩

/-! ## Reading to the end of a stream -/

namespace FrameReader

theorem good_newFrameReader {src : List (List UInt8)} (eager : Bool)
    (hsrc : Bufio.Reader.Flowing (Bufio.maxConsecutiveEmptyReads - 1) src) :
    (newFrameReader src eager).Good :=
  ⟨⟨Nat.zero_le _, hsrc, .inl rfl⟩, rfl, Nat.le_refl _⟩

/-- Whatever the `Read` calls cut a stream into, repeated `ReadFrame` calls return its frames and
then say how it ends. -/
theorem readFrames_splits (src : List (List UInt8)) (eager : Bool)
    (hsrc : Bufio.Reader.Flowing (Bufio.maxConsecutiveEmptyReads - 1) src) (fuel : Nat)
    (hfuel : src.flatten.length < fuel) :
    (∃ frames ending, readFrames fuel (newFrameReader src eager) = (frames, some ending)) ∧
    (∀ frames ending, readFrames fuel (newFrameReader src eager) = (frames, some ending) ↔
      Splits src.flatten frames ending) ∧
    (∀ src' eager', Bufio.Reader.Flowing (Bufio.maxConsecutiveEmptyReads - 1) src' →
      src'.flatten = src.flatten →
      readFrames fuel (newFrameReader src' eager') = readFrames fuel (newFrameReader src eager)) ∧
    ∀ frames, (∀ frame ∈ frames, Admissible frame) → src.flatten = frames.flatten →
      readFrames fuel (newFrameReader src eager) = (frames, some (.buffer .eof)) := by
  obtain ⟨frames, ending, hread, hsplits⟩ :=
    readFrames_spec fuel (good_newFrameReader eager hsrc) hfuel
  change Splits src.flatten frames ending at hsplits
  have hcomplete : ∀ frames' ending', Splits src.flatten frames' ending' →
      readFrames fuel (newFrameReader src eager) = (frames', some ending') := by
    intro frames' ending' hsplits'
    obtain ⟨rfl, rfl⟩ := hsplits.unique hsplits'
    exact hread
  refine ⟨⟨frames, ending, hread⟩, ?_, ?_, ?_⟩
  · intro frames' ending'
    refine ⟨fun hread' => ?_, hcomplete frames' ending'⟩
    cases hread.symm.trans hread'
    exact hsplits
  · intro src' eager' hsrc' hsame
    obtain ⟨frames', ending', hread', hsplits'⟩ :=
      readFrames_spec (r := newFrameReader src' eager') fuel (good_newFrameReader eager' hsrc')
        (show src'.flatten.length < fuel from hsame ▸ hfuel)
    change Splits src'.flatten frames' ending' at hsplits'
    rw [hread', hcomplete frames' ending' (hsame ▸ hsplits')]
  · intro frames' hall hstream
    exact hcomplete _ _ ⟨[], by rw [hstream, List.append_nil], hall, rfl⟩

/-- A frame in three reads with an empty one among them, and the first byte of the next frame. -/
def cutReads : List (List UInt8) := [[4, 0], [], [0, 0, 1], [2, 3, 4, 9]]

theorem readFrames_splits_cutReads :
    Bufio.Reader.Flowing (Bufio.maxConsecutiveEmptyReads - 1) cutReads ∧
    cutReads.flatten.length < 10 ∧
    readFrames 10 (newFrameReader cutReads true) =
      ([[4, 0, 0, 0, 1, 2, 3, 4]], some .unexpectedEOF) := by
  have hsrc : Bufio.Reader.Flowing (Bufio.maxConsecutiveEmptyReads - 1) cutReads := trivial
  have hfuel : cutReads.flatten.length < 10 := by decide
  refine ⟨hsrc, hfuel, ((readFrames_splits cutReads true hsrc 10 hfuel).2.1 _ _).mpr ?_⟩
  refine ⟨[9], rfl, ?_, nofun, .inl (by decide)⟩
  intro frame hframe
  rw [List.mem_singleton.mp hframe]
  exact ⟨by decide, by decide, by decide⟩

end FrameReader

end RedLease.Transport
