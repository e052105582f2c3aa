import Mathlib.Data.List.Basic
import Mathlib.Tactic.SplitIfs

/-!
# Buffered readers and writers

`bufio.Reader` and `bufio.Writer`, as their documentation and source describe them.

A reader has a buffer of fixed size in front of a source. The source is the list of what its `Read`
calls have to give: each call returns a non-empty part of the first chunk, as far as the buffer has
room, or nothing if that chunk is empty, and the end of the stream when no chunk is left, or already
with the last bytes. A source is `Flowing` if it does not return nothing a hundred times in a row.

* **`peek_of_le`**, **`peek_short`**: `Peek` returns the next bytes of the stream if it has so many,
  and otherwise all it has, with the end of the stream.
* `discard_buffered`: `Discard` of bytes that are buffered drops them.

A writer has a buffer of fixed size in front of a sink. `Write` of what fits into the buffer only
copies (`write_of_fits`), and `Flush` gives all that is buffered to the sink in one call.
-/

namespace RedLease.Lib.Bufio

variable {α : Type}

/-- `io.EOF`, `io.ErrNoProgress` and `bufio.ErrBufferFull`. -/
inductive Error where
  | eof
  | noProgress
  | bufferFull
  deriving DecidableEq, Repr

/-- `maxConsecutiveEmptyReads`. -/
def maxConsecutiveEmptyReads : Nat := 100

/-- `bufio.Reader` with its source. -/
structure Reader (α : Type) where
  size : Nat
  /-- What is buffered and not read. -/
  buf : List α
  /-- What the `Read` calls have to give. -/
  src : List (List α)
  /-- The end of the stream is returned with its last bytes. -/
  eager : Bool
  err : Option Error

namespace Reader

variable (r : Reader α)

/-- What is left of the stream. -/
def unread : List α := r.buf ++ r.src.flatten

/-- A `Read` into the room of the buffer that finds `chunk`. -/
def read (chunk : List α) (rest : List (List α)) : Reader α :=
  let left := chunk.drop (r.size - r.buf.length)
  let src := if left = [] then rest else left :: rest
  { r with
    buf := r.buf ++ chunk.take (r.size - r.buf.length)
    src
    err := if r.eager = true ∧ src = [] then some .eof else none }

/-- The loop of `fill`, with the attempts left. -/
def fillLoop : Nat → Reader α → Reader α
  | 0, r => { r with err := some .noProgress }
  | attempts + 1, r =>
    match r.src with
    | [] => { r with err := some .eof }
    | [] :: rest => fillLoop attempts { r with src := rest }
    | (a :: chunk) :: rest => r.read (a :: chunk) rest

/-- `fill`. -/
def fill : Reader α := fillLoop maxConsecutiveEmptyReads r

/-- The loop of `Peek`: every `fill` adds a byte or sets `err`. -/
def fillUntil (n : Nat) : Nat → Reader α → Reader α
  | 0, r => r
  | fuel + 1, r =>
    if r.buf.length < n ∧ r.buf.length < r.size ∧ r.err = none then fillUntil n fuel r.fill else r

/-- `Peek`: the bytes, and an error if they are fewer than `n`. -/
def peek (n : Nat) : Reader α × List α × Option Error :=
  let r := fillUntil n n r
  if r.size < n then (r, r.buf, some .bufferFull)
  else if r.buf.length < n then ({ r with err := none }, r.buf, some (r.err.getD .bufferFull))
  else (r, r.buf.take n, none)

/-- The loop of `Discard`. -/
def discardLoop (remain : Nat) : Nat → Reader α → Reader α × Option Error
  | 0, r => (r, none)
  | fuel + 1, r =>
    let r := if r.buf = [] then r.fill else r
    let skip := min r.buf.length remain
    let r := { r with buf := r.buf.drop skip }
    if remain - skip = 0 then (r, none)
    else
      match r.err with
      | some err => ({ r with err := none }, some err)
      | none => discardLoop (remain - skip) fuel r

/-- `Discard`. -/
def discard (n : Nat) : Reader α × Option Error :=
  if n = 0 then (r, none) else discardLoop n n r

/-! ## The source -/

/-- The source gives a byte, or ends, within `k` empty reads, and again after each byte within
`maxConsecutiveEmptyReads - 1`. -/
def Flowing : Nat → List (List α) → Prop
  | _, [] => True
  | 0, [] :: _ => False
  | k + 1, [] :: rest => Flowing k rest
  | _, (_ :: _) :: rest => Flowing (maxConsecutiveEmptyReads - 1) rest

/-- What every operation on a flowing source keeps. -/
structure Good : Prop where
  fits : r.buf.length ≤ r.size
  flowing : Flowing (maxConsecutiveEmptyReads - 1) r.src
  err : r.err = none ∨ r.err = some .eof ∧ r.src = []

/-- `r'` is `r` with more of the stream in its buffer. -/
structure Ahead (r r' : Reader α) : Prop where
  good : r'.Good
  size : r'.size = r.size
  unread : r'.unread = r.unread

variable {r}

theorem Good.ahead_self (h : r.Good) : Ahead r r := ⟨h, rfl, rfl⟩

theorem Ahead.trans {r₁ r₂ r₃ : Reader α} (h : Ahead r₁ r₂) (h' : Ahead r₂ r₃) : Ahead r₁ r₃ :=
  ⟨h'.good, h'.size.trans h.size, h'.unread.trans h.unread⟩

/-- At the end of the stream all of it is in the buffer. -/
theorem Good.buf_eq_unread (h : r.Good) (herr : r.err ≠ none) : r.buf = r.unread := by
  obtain hnone | ⟨-, hsrc⟩ := h.err
  · exact absurd hnone herr
  · simp [Reader.unread, hsrc]

theorem read_ahead {a : α} {chunk : List α} {rest : List (List α)}
    (hsrc : r.src = (a :: chunk) :: rest) (hroom : r.buf.length < r.size)
    (hflow : Flowing (maxConsecutiveEmptyReads - 1) rest) :
    Ahead r (r.read (a :: chunk) rest) ∧
      r.buf.length < (r.read (a :: chunk) rest).buf.length := by
  have htake := List.take_append_drop (r.size - r.buf.length) (a :: chunk)
  refine ⟨⟨⟨?_, ?_, ?_⟩, rfl, ?_⟩, ?_⟩
  · simp only [read, List.length_append, List.length_take]
    omega
  · simp only [read]
    cases hleft : (a :: chunk).drop (r.size - r.buf.length) with
    | nil => exact hflow
    | cons b left => exact hflow
  · simp only [read]
    by_cases hend : r.eager = true ∧
        (if (a :: chunk).drop (r.size - r.buf.length) = [] then rest
          else (a :: chunk).drop (r.size - r.buf.length) :: rest) = []
    · exact .inr ⟨if_pos hend, hend.2⟩
    · exact .inl (if_neg hend)
  · simp only [Reader.unread, read, hsrc, List.flatten_cons, List.append_assoc]
    by_cases hleft : (a :: chunk).drop (r.size - r.buf.length) = []
    · rw [hleft, List.append_nil] at htake
      rw [if_pos hleft, htake]
    · rw [if_neg hleft, List.flatten_cons, ← List.append_assoc (List.take _ _), htake]
  · simp only [read, List.length_append, List.length_take, List.length_cons]
    omega

/-- `fill` adds a byte, or finds the end of the stream. -/
theorem fillLoop_spec (k : Nat) (hroom : r.buf.length < r.size) (hflow : Flowing k r.src) :
    Ahead r (fillLoop (k + 1) r) ∧
      (r.buf.length < (fillLoop (k + 1) r).buf.length ∨ (fillLoop (k + 1) r).err ≠ none) := by
  induction k generalizing r with
  | zero =>
    obtain ⟨size, buf, src, eager, err⟩ := r
    cases src with
    | nil => exact ⟨⟨⟨Nat.le_of_lt hroom, trivial, .inr ⟨rfl, rfl⟩⟩, rfl, rfl⟩, .inr nofun⟩
    | cons chunk rest =>
      cases chunk with
      | nil => exact hflow.elim
      | cons a chunk => exact (read_ahead rfl hroom hflow).imp_right .inl
  | succ k ih =>
    obtain ⟨size, buf, src, eager, err⟩ := r
    cases src with
    | nil => exact ⟨⟨⟨Nat.le_of_lt hroom, trivial, .inr ⟨rfl, rfl⟩⟩, rfl, rfl⟩, .inr nofun⟩
    | cons chunk rest =>
      cases chunk with
      | nil =>
        obtain ⟨hahead, hmore⟩ := ih (r := ⟨size, buf, rest, eager, err⟩) hroom hflow
        exact ⟨⟨hahead.good, hahead.size, hahead.unread⟩, hmore⟩
      | cons a chunk => exact (read_ahead rfl hroom hflow).imp_right .inl

/-! ## `Peek` and `Discard` -/

/-- The loop of `Peek` ends with `n` bytes, or with the end of the stream. -/
theorem fillUntil_spec {n : Nat} (fuel : Nat) (hn : n ≤ r.size) (hfuel : n ≤ r.buf.length + fuel)
    (hgood : r.Good) :
    Ahead r (fillUntil n fuel r) ∧
      (n ≤ (fillUntil n fuel r).buf.length ∨ (fillUntil n fuel r).err ≠ none) := by
  induction fuel generalizing r with
  | zero => exact ⟨hgood.ahead_self, .inl hfuel⟩
  | succ fuel ih =>
    unfold fillUntil
    by_cases hmore : r.buf.length < n ∧ r.buf.length < r.size ∧ r.err = none
    · rw [if_pos hmore]
      obtain ⟨hahead, hprogress⟩ : Ahead r r.fill ∧
          (r.buf.length < r.fill.buf.length ∨ r.fill.err ≠ none) :=
        fillLoop_spec (maxConsecutiveEmptyReads - 1) hmore.2.1 hgood.flowing
      rcases hprogress with hlen | herr
      · obtain ⟨hahead', hdone⟩ := ih (r := r.fill) (hahead.size ▸ hn) (by omega) hahead.good
        exact ⟨hahead.trans hahead', hdone⟩
      · have hstop : fillUntil n fuel r.fill = r.fill := by
          cases fuel with
          | zero => rfl
          | succ fuel => exact if_neg fun h => herr h.2.2
        rw [hstop]
        exact ⟨hahead, .inr herr⟩
    · rw [if_neg hmore]
      refine ⟨hgood.ahead_self, ?_⟩
      by_cases hlen : n ≤ r.buf.length
      · exact .inl hlen
      · exact .inr fun herr => hmore ⟨by omega, by omega, herr⟩

/-- `Peek` of bytes that the stream has. -/
theorem peek_of_le {n : Nat} (hn : n ≤ r.size) (hgood : r.Good) (hlen : n ≤ r.unread.length) :
    ∃ r', r.peek n = (r', r.unread.take n, none) ∧ Ahead r r' ∧ n ≤ r'.buf.length := by
  obtain ⟨hahead, hdone⟩ := fillUntil_spec n hn (Nat.le_add_left _ _) hgood
  have hbuf : n ≤ (fillUntil n n r).buf.length := by
    rcases hdone with hbuf | herr
    · exact hbuf
    · rw [hahead.good.buf_eq_unread herr, hahead.unread]
      exact hlen
  have hsize : ¬ (fillUntil n n r).size < n := by
    rw [hahead.size]
    omega
  refine ⟨fillUntil n n r, ?_, hahead, hbuf⟩
  unfold peek
  simp only
  rw [if_neg hsize, if_neg (by omega), ← hahead.unread, Reader.unread,
    List.take_append_of_le_length hbuf]

/-- `Peek` of more bytes than the stream has. -/
theorem peek_short {n : Nat} (hn : n ≤ r.size) (hgood : r.Good) (hlen : r.unread.length < n) :
    ∃ r', r.peek n = (r', r.unread, some .eof) := by
  obtain ⟨hahead, hdone⟩ := fillUntil_spec n hn (Nat.le_add_left _ _) hgood
  have hbuf : (fillUntil n n r).buf.length < n := by
    have hle : (fillUntil n n r).buf.length ≤ (fillUntil n n r).unread.length := by
      simp [Reader.unread]
    rw [hahead.unread] at hle
    omega
  have herr : (fillUntil n n r).err ≠ none := hdone.resolve_left (by omega)
  have hsize : ¬ (fillUntil n n r).size < n := by
    rw [hahead.size]
    omega
  have heof : (fillUntil n n r).err = some .eof :=
    (hahead.good.err.resolve_left herr).1
  refine ⟨{ fillUntil n n r with err := none }, ?_⟩
  unfold peek
  simp only
  rw [if_neg hsize, if_pos hbuf, hahead.good.buf_eq_unread herr, hahead.unread, heof]
  rfl

/-- `Discard` of bytes that are buffered. -/
theorem discard_buffered {n : Nat} (hn : n ≤ r.buf.length) :
    r.discard n = ({ r with buf := r.buf.drop n }, none) := by
  unfold discard
  cases n with
  | zero => rfl
  | succ n =>
    have hbuf : r.buf ≠ [] := by
      intro hnil
      rw [hnil] at hn
      exact absurd hn (by simp)
    rw [if_neg (by omega)]
    unfold discardLoop
    simp only [if_neg hbuf, Nat.min_eq_right hn, Nat.sub_self, ↓reduceIte]

theorem Good.drop (hgood : r.Good) (n : Nat) : ({ r with buf := r.buf.drop n } : Reader α).Good :=
  { fits := by
      have hfits := hgood.fits
      simp only [List.length_drop]
      omega
    flowing := hgood.flowing
    err := hgood.err }

end Reader

/-! ## The writer -/

/-- `bufio.Writer`; `failed` is its sticky error. -/
structure Writer (α : Type) where
  size : Nat
  buf : List α
  failed : Bool

/-- The `Write` of a sink with state `σ`: no value is success, otherwise so many were written. -/
abbrev Sink (σ α : Type) : Type := σ → List α → σ × Option Nat

namespace Writer

variable {σ : Type} (sink : Sink σ α) (w : Writer α)

/-- `Available`. -/
def available : Nat := w.size - w.buf.length

/-- `Flush`, with whether it succeeded. -/
def flush (s : σ) : Writer α × σ × Bool :=
  if w.failed then (w, s, false)
  else if w.buf = [] then (w, s, true)
  else
    match sink s w.buf with
    | (s, none) => ({ w with buf := [] }, s, true)
    | (s, some n) => ({ w with buf := w.buf.drop n, failed := true }, s, false)

/-- The loop of `Write`: with an empty buffer the rest of the bytes goes to the sink directly,
otherwise the buffer is filled and flushed. -/
def writeLoop : Nat → List α → Writer α → σ → Writer α × σ × Bool
  | 0, _, w, s => (w, s, false)
  | fuel + 1, p, w, s =>
    if w.available < p.length ∧ w.failed = false then
      if w.buf = [] then
        match sink s p with
        | (s, none) => writeLoop fuel [] w s
        | (s, some n) => writeLoop fuel (p.drop n) { w with failed := true } s
      else
        let n := w.available
        let (w, s, _) := flush sink { w with buf := w.buf ++ p.take n } s
        writeLoop fuel (p.drop n) w s
    else if w.failed then (w, s, false)
    else ({ w with buf := w.buf ++ p }, s, true)

/-- `Write`. The loop flushes the buffer at most once and then writes directly at most once. -/
def write (p : List α) (s : σ) : Writer α × σ × Bool := writeLoop sink 3 p w s

variable {sink w}

/-- What fits is copied. -/
theorem write_of_fits {p : List α} (s : σ) (hfits : p.length ≤ w.available)
    (hok : w.failed = false) : w.write sink p s = ({ w with buf := w.buf ++ p }, s, true) := by
  unfold write writeLoop
  rw [if_neg (fun h => Nat.not_lt.mpr hfits h.1), if_neg (by rw [hok]; nofun)]

theorem flush_of_ok {s s' : σ} (hok : w.failed = false) (hbuf : w.buf ≠ [])
    (hsink : sink s w.buf = (s', none)) : w.flush sink s = ({ w with buf := [] }, s', true) := by
  unfold flush
  rw [if_neg (by rw [hok]; nofun), if_neg hbuf, hsink]

end Writer

end RedLease.Lib.Bufio
