import RedLease.Lib.Bufio

/-!
# The frame writer

`FrameWriter` over a `bufio.Writer` of 64 KiB. `bufio.Writer` writes to the socket by itself when it
is given more than fits, without a deadline and across the boundaries of frames; `BufferFrame`
flushes first, so that this never happens.

What the socket does is a parameter `net`: the fate of an operation may depend on every operation
before it.

* **`FrameWriter.run_batches`**: with a socket that does not fail, every call to the writer sends
  nothing, or a fresh deadline followed by one write of whole frames; the frames are sent in the
  order of the calls, each once, and the rest is in the buffer.
-/

namespace RedLease.Transport

open RedLease.Lib

/-! ## Writing -/

/-- `connectionWriteBufferBytes`. -/
def connectionWriteBufferBytes : Nat := 64 * 1024

/-- `TCPWriteTimeout`, in milliseconds. -/
def tcpWriteTimeout : Nat := 1000

/-- An operation on the socket. -/
inductive SocketOp where
  | setWriteDeadline (deadline : Nat)
  | write (bytes : List UInt8)
  deriving DecidableEq, Repr

/-- The fate of an operation after the given ones: no value is success, a write can fail after some
bytes. -/
abbrev Net : Type := List SocketOp → SocketOp → Option Nat

/-- The errors of `BufferFrame` and `Flush`. -/
inductive WriteError where
  | tooLarge (size : Nat)
  | deadline
  | buffer
  deriving DecidableEq, Repr

/-- `conn` is what the socket was asked to do. -/
structure FrameWriter where
  conn : List SocketOp
  buffer : Bufio.Writer UInt8

namespace FrameWriter

/-- `NewFrameWriter`. -/
def newFrameWriter : FrameWriter := ⟨[], connectionWriteBufferBytes, [], false⟩

/-- `conn.Write`. -/
def socket (net : Net) : Bufio.Sink (List SocketOp) UInt8 := fun conn bytes =>
  (conn ++ [.write bytes], net conn (.write bytes))

/-- The result of an operation on the buffer. -/
def ofBuffer : Bufio.Writer UInt8 × List SocketOp × Bool → FrameWriter × Except WriteError Unit
  | (buffer, conn, ok) => (⟨conn, buffer⟩, if ok then .ok () else .error .buffer)

/-- `Flush`. -/
def flush (net : Net) (now : Nat) (w : FrameWriter) : FrameWriter × Except WriteError Unit :=
  if w.buffer.buf.length = 0 then (w, .ok ())
  else
    let deadline := SocketOp.setWriteDeadline (now + tcpWriteTimeout)
    let conn := w.conn ++ [deadline]
    match net w.conn deadline with
    | some _ => ({ w with conn }, .error .deadline)
    | none => ofBuffer (w.buffer.flush (socket net) conn)

/-- `BufferFrame`. -/
def bufferFrame (net : Net) (now : Nat) (frame : List UInt8) (w : FrameWriter) :
    FrameWriter × Except WriteError Unit :=
  if w.buffer.size < frame.length then (w, .error (.tooLarge frame.length))
  else
    let (w, flushed) :=
      if w.buffer.available < frame.length then w.flush net now else (w, .ok ())
    match flushed with
    | .error err => (w, .error err)
    | .ok () => ofBuffer (w.buffer.write (socket net) frame w.conn)

/-- A call to the writer, with what its clock says. -/
inductive Call where
  | bufferFrame (now : Nat) (frame : List UInt8)
  | flush (now : Nat)

/-- When the call is made. -/
def Call.now : Call → Nat
  | .bufferFrame now _ => now
  | .flush now => now

/-- One of the calls. -/
def call (net : Net) (w : FrameWriter) : Call → FrameWriter × Except WriteError Unit
  | .bufferFrame now frame => w.bufferFrame net now frame
  | .flush now => w.flush net now

/-- A call, between the states before and after it. -/
structure Entry where
  before : FrameWriter
  call : Call
  result : Except WriteError Unit
  after : FrameWriter

/-- A sequence of calls, and the writer after them. -/
def run (net : Net) : FrameWriter → List Call → List Entry × FrameWriter
  | w, [] => ([], w)
  | w, c :: calls =>
    let (w', result) := w.call net c
    let (entries, w'') := run net w' calls
    (⟨w, c, result, w'⟩ :: entries, w'')

/-! ## What the writer is for -/

/-- The frame that a call got accepted. -/
def Entry.accepted (e : Entry) : List (List UInt8) :=
  match e.call, e.result with
  | .bufferFrame _ frame, .ok () => [frame]
  | _, _ => []

/-- The bytes written to the socket. -/
def written (conn : List SocketOp) : List UInt8 :=
  conn.flatMap fun
    | .setWriteDeadline _ => []
    | .write bytes => bytes

/-- The call sends the frames in one write, under a deadline that it has just set; it does nothing
to the socket if there are none. -/
def Entry.Sends (e : Entry) (batch : List (List UInt8)) : Prop :=
  e.after.conn = e.before.conn ++
    if batch = [] then []
    else [.setWriteDeadline (e.call.now + tcpWriteTimeout), .write batch.flatten]

/-- Only a frame that is too large is rejected, and without a trace; a `Flush` of an empty buffer
does nothing. -/
def Entry.Proper (e : Entry) : Prop :=
  match e.call with
  | .bufferFrame _ frame =>
    (e.result ≠ .ok () ↔ 64 * 1024 < frame.length) ∧ (e.result ≠ .ok () → e.after = e.before)
  | .flush _ => e.result = .ok () ∧ (e.before.buffer.buf = [] → e.after = e.before)

/-- The writer works, and these frames are in its buffer. -/
structure Holds (w : FrameWriter) (waiting : List (List UInt8)) : Prop where
  size : w.buffer.size = connectionWriteBufferBytes
  working : w.buffer.failed = false
  fits : w.buffer.buf.length ≤ w.buffer.size
  buf : w.buffer.buf = waiting.flatten

/-! ## One call -/

variable {net : Net} {w : FrameWriter} {waiting : List (List UInt8)}

theorem flush_empty (now : Nat) (hbuf : w.buffer.buf = []) : w.flush net now = (w, .ok ()) := by
  unfold flush
  rw [if_pos (by rw [hbuf]; rfl)]

/-- `Flush` of frames that wait. -/
theorem Holds.flush_eq (h : Holds w waiting) (hnet : ∀ conn op, net conn op = none) (now : Nat)
    (hbuf : w.buffer.buf ≠ []) :
    w.flush net now = (⟨w.conn ++ [.setWriteDeadline (now + tcpWriteTimeout),
      .write waiting.flatten], { w.buffer with buf := [] }⟩, .ok ()) := by
  have hsink : socket net (w.conn ++ [.setWriteDeadline (now + tcpWriteTimeout)]) w.buffer.buf =
      (w.conn ++ [.setWriteDeadline (now + tcpWriteTimeout), .write waiting.flatten], none) := by
    unfold socket
    rw [hnet, h.buf, List.append_assoc]
    rfl
  unfold flush
  rw [if_neg (fun hlen => hbuf (List.eq_nil_of_length_eq_zero hlen))]
  simp only [hnet]
  rw [Bufio.Writer.flush_of_ok h.working hbuf hsink]
  rfl

/-- `Write` of a frame that fits. -/
theorem Holds.write (h : Holds w waiting) (net : Net) (frame : List UInt8)
    (hfits : frame.length ≤ w.buffer.available) :
    ofBuffer (w.buffer.write (socket net) frame w.conn) =
        (⟨w.conn, { w.buffer with buf := w.buffer.buf ++ frame }⟩, .ok ()) ∧
      Holds ⟨w.conn, { w.buffer with buf := w.buffer.buf ++ frame }⟩ (waiting ++ [frame]) := by
  refine ⟨?_, h.size, h.working, ?_, ?_⟩
  · rw [Bufio.Writer.write_of_fits _ hfits h.working]
    rfl
  · have hroom := h.fits
    unfold Bufio.Writer.available at hfits
    simp only [List.length_append]
    omega
  · simp only [h.buf, List.flatten_append, List.flatten_singleton]

/-- `BufferFrame` of a frame that fits into the buffer, once it is empty. -/
theorem Holds.bufferFrame_eq (h : Holds w waiting) (hnet : ∀ conn op, net conn op = none)
    (now : Nat) {frame : List UInt8} (hsize : frame.length ≤ connectionWriteBufferBytes) :
    ∃ batch waiting' w', w.bufferFrame net now frame = (w', .ok ()) ∧ Holds w' waiting' ∧
      Entry.Sends ⟨w, .bufferFrame now frame, .ok (), w'⟩ batch ∧
      batch ++ waiting' = waiting ++ [frame] := by
  unfold bufferFrame
  rw [if_neg (by rw [h.size]; exact Nat.not_lt.mpr hsize)]
  by_cases hfull : w.buffer.available < frame.length
  · -- A frame fits into an empty buffer, so this one is not empty and `Flush` empties it.
    have hbuf : w.buffer.buf ≠ [] := by
      intro hnil
      rw [Bufio.Writer.available, hnil, h.size] at hfull
      exact absurd hsize (Nat.not_le.mpr hfull)
    have hempty : Holds ⟨w.conn ++ [.setWriteDeadline (now + tcpWriteTimeout),
        .write waiting.flatten], { w.buffer with buf := [] }⟩ [] :=
      ⟨h.size, h.working, Nat.zero_le _, rfl⟩
    have hwaiting : waiting ≠ [] := fun hnil => hbuf (by rw [h.buf, hnil]; rfl)
    obtain ⟨hwrite, hholds⟩ := hempty.write net frame
      (by simp only [Bufio.Writer.available, h.size]; exact hsize)
    rw [if_pos hfull, h.flush_eq hnet now hbuf]
    refine ⟨waiting, [frame], _, hwrite, hholds, ?_, rfl⟩
    unfold Entry.Sends
    rw [if_neg hwaiting]
    rfl
  · obtain ⟨hwrite, hholds⟩ := h.write net frame (Nat.le_of_not_lt hfull)
    rw [if_neg hfull]
    exact ⟨[], _, _, hwrite, hholds, (List.append_nil _).symm, rfl⟩

/-- One call: what it sends are the frames that have waited longest. -/
theorem Holds.call (h : Holds w waiting) (hnet : ∀ conn op, net conn op = none) (c : Call) :
    ∃ batch waiting', Holds (w.call net c).1 waiting' ∧
      Entry.Sends ⟨w, c, (w.call net c).2, (w.call net c).1⟩ batch ∧
      batch ++ waiting' =
        waiting ++ Entry.accepted ⟨w, c, (w.call net c).2, (w.call net c).1⟩ ∧
      Entry.Proper ⟨w, c, (w.call net c).2, (w.call net c).1⟩ := by
  cases c with
  | bufferFrame now frame =>
    by_cases hsize : frame.length ≤ connectionWriteBufferBytes
    · obtain ⟨batch, waiting', w', hcall, hholds, hsends, hframes⟩ :=
        h.bufferFrame_eq hnet now hsize
      simp only [FrameWriter.call, hcall]
      refine ⟨batch, waiting', hholds, hsends, hframes, ?_⟩
      exact ⟨⟨fun hne => absurd rfl hne, fun hlt => absurd hsize (Nat.not_le.mpr hlt)⟩,
        fun hne => absurd rfl hne⟩
    · have hcall : w.bufferFrame net now frame = (w, .error (.tooLarge frame.length)) := by
        unfold bufferFrame
        rw [if_pos (by rw [h.size]; exact Nat.lt_of_not_le hsize)]
      simp only [FrameWriter.call, hcall]
      refine ⟨[], waiting, h, (List.append_nil _).symm, (List.append_nil _).symm, ?_⟩
      exact ⟨⟨fun _ => Nat.lt_of_not_le hsize, fun _ => nofun⟩, fun _ => rfl⟩
  | flush now =>
    by_cases hbuf : w.buffer.buf = []
    · simp only [FrameWriter.call, flush_empty now hbuf]
      exact ⟨[], waiting, h, (List.append_nil _).symm, (List.append_nil _).symm, rfl, fun _ => rfl⟩
    · have hwaiting : waiting ≠ [] := fun hnil => hbuf (by rw [h.buf, hnil]; rfl)
      simp only [FrameWriter.call, h.flush_eq hnet now hbuf]
      refine ⟨waiting, [], ⟨h.size, h.working, Nat.zero_le _, rfl⟩, ?_, rfl, rfl,
        fun hnil => absurd hnil hbuf⟩
      unfold Entry.Sends
      rw [if_neg hwaiting]
      rfl

theorem Entry.Sends.written {e : Entry} {batch : List (List UInt8)} (h : e.Sends batch) :
    FrameWriter.written e.after.conn = FrameWriter.written e.before.conn ++ batch.flatten := by
  rw [h, FrameWriter.written, List.flatMap_append]
  by_cases hbatch : batch = []
  · rw [if_pos hbatch, hbatch]
    rfl
  · rw [if_neg hbatch]
    simp [FrameWriter.written]

/-! ## Every sequence of calls -/

theorem Holds.run (h : Holds w waiting) (hnet : ∀ conn op, net conn op = none)
    (calls : List Call) :
    ∃ batches waiting', List.Forall₂ Entry.Sends (run net w calls).1 batches ∧
      Holds (run net w calls).2 waiting' ∧
      batches.flatten ++ waiting' = waiting ++ (run net w calls).1.flatMap Entry.accepted ∧
      written (run net w calls).2.conn = written w.conn ++ batches.flatten.flatten ∧
      ∀ e ∈ (run net w calls).1, e.Proper := by
  induction calls generalizing w waiting with
  | nil => exact ⟨[], waiting, .nil, h, (List.append_nil _).symm, (List.append_nil _).symm, nofun⟩
  | cons c calls ih =>
    obtain ⟨batch, middle, hmiddle, hsends, hframes, hproper⟩ := h.call hnet c
    obtain ⟨batches, waiting', hall, hlast, hrest, hwritten, hpropers⟩ := ih hmiddle
    refine ⟨batch :: batches, waiting', .cons hsends hall, hlast, ?_, ?_, ?_⟩
    · simp only [FrameWriter.run, List.flatMap_cons, List.flatten_cons, List.append_assoc, hrest]
      rw [← List.append_assoc, hframes, List.append_assoc]
    · simp only [FrameWriter.run, hwritten, List.flatten_cons, List.flatten_append]
      rw [← List.append_assoc, hsends.written]
    · exact List.forall_mem_cons.mpr ⟨hproper, hpropers⟩

/-- With a socket that does not fail, every call sends nothing, or one write of whole frames under
a deadline of its own; frames are sent in the order of the calls, and what is not sent is in the
buffer. -/
theorem run_batches (net : Net) (hnet : ∀ conn op, net conn op = none) (calls : List Call) :
    (∃ batches waiting,
      List.Forall₂ Entry.Sends (run net newFrameWriter calls).1 batches ∧
      (run net newFrameWriter calls).2.buffer.buf = waiting.flatten ∧
      batches.flatten ++ waiting =
        (run net newFrameWriter calls).1.flatMap Entry.accepted) ∧
    written (run net newFrameWriter calls).2.conn ++ (run net newFrameWriter calls).2.buffer.buf =
      ((run net newFrameWriter calls).1.flatMap Entry.accepted).flatten ∧
    ∀ e ∈ (run net newFrameWriter calls).1, e.Proper := by
  have hnew : Holds newFrameWriter [] := ⟨rfl, rfl, Nat.zero_le _, rfl⟩
  obtain ⟨batches, waiting, hall, hlast, hframes, hwritten, hproper⟩ := hnew.run hnet calls
  refine ⟨⟨batches, waiting, hall, hlast.buf, hframes⟩, ?_, hproper⟩
  rw [hwritten, hlast.buf, ← List.nil_append (List.flatMap _ _), ← hframes, List.flatten_append]
  rfl

/-- Two frames that do not fit into the buffer together, one that fits into no buffer, and a
`Flush`. -/
def fullCalls : List Call :=
  [.bufferFrame 1 (List.replicate 40000 1), .bufferFrame 2 (List.replicate 30000 2),
    .bufferFrame 3 (List.replicate 70000 3), .flush 4, .flush 5]

theorem run_batches_fullCalls :
    (∀ conn op, (fun _ _ => none : Net) conn op = none) ∧
    ∀ e ∈ (run (fun _ _ => none) newFrameWriter fullCalls).1, e.Proper :=
  ⟨fun _ _ => rfl, (run_batches _ (fun _ _ => rfl) fullCalls).2.2⟩

end FrameWriter

end RedLease.Transport
