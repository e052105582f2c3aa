import RedLease.Lib.FlatBuffers.Builder
import RedLease.Transport.Writer
import RedLease.Wire.Request
import RedLease.Wire.Response

/-!
# A connection

What one side encodes, buffers and flushes, and what the other side reads and decodes, whatever the
`Read` calls cut the stream into and wherever the connection breaks.

* `sendBatches`: the loop that `sendRequests` of the client and `sendResponses` of the server have in
  common. They take values from their queue while there are any and flush when there are none.
* **`sendBatches_spec`**: all frames are written, in the order of the values.
* **`readFrames_part`**: of every part of the stream that arrives, the reader finds the frames that
  are complete.
* **`requests_received`** and **`responses_received`**: the two directions of a connection.
-/

namespace RedLease.Wire

open Lib Lib.FlatBuffers Transport Transport.FrameWriter Server

/-! ## Sending -/

section Send

variable {σ α : Type} (encode : σ → α → Option (σ × List UInt8)) (net : Net)

/-- The inner loop: the values that the queue has, each with what the clock says when its frame is
buffered, and then a `Flush`. -/
def sendBatch (flushAt : Nat) : σ → FrameWriter → List (α × Nat) →
    Option (σ × FrameWriter × Except WriteError Unit)
  | s, w, [] => some (s, w.flush net flushAt)
  | s, w, (a, now) :: rest =>
    (encode s a).bind fun (s, frame) =>
      match w.bufferFrame net now frame with
      | (w, .error err) => some (s, w, .error err)
      | (w, .ok ()) => sendBatch flushAt s w rest

/-- The outer loop. -/
def sendBatches : σ → FrameWriter → List (List (α × Nat) × Nat) →
    Option (σ × FrameWriter × Except WriteError Unit)
  | s, w, [] => some (s, w, .ok ())
  | s, w, (batch, flushAt) :: rest =>
    (sendBatch encode net flushAt s w batch).bind fun
      | (s, w, .error err) => some (s, w, .error err)
      | (s, w, .ok ()) => sendBatches s w rest

/-- The values of all batches. -/
def sentValues (batches : List (List (α × Nat) × Nat)) : List α :=
  batches.flatMap fun batch => batch.1.map Prod.fst

end Send

section Connection

variable (rt : Runtime)

/-- `client.sendRequests`, with one builder for the connection. -/
def sendRequests (net : Net) (batches : List (List (OutboundRequest × Nat) × Nat)) :
    Option (rt.Builder × FrameWriter × Except WriteError Unit) :=
  sendBatches (encodeRequest rt) net (rt.newBuilder initialBufferSize) newFrameWriter batches

/-- `bufferResponse` up to `BufferFrame`; there is no frame of a response that is rejected. -/
def responseFrame (b : rt.Builder) (r : Response) : Option (rt.Builder × List UInt8) :=
  match encodeResponse rt b r with
  | some (.ok out) => some out
  | _ => none

/-- `sendResponses`, with one builder for the connection. -/
def sendResponses (net : Net) (batches : List (List (Response × Nat) × Nat)) :
    Option (rt.Builder × FrameWriter × Except WriteError Unit) :=
  sendBatches (responseFrame rt) net (rt.newBuilder initialBufferSize) newFrameWriter batches

end Connection

section Sends

variable {σ α : Type} (encode : σ → α → Option (σ × List UInt8)) (frameOf : α → List UInt8)
  {net : Net} {w : FrameWriter} {waiting : List (List UInt8)}

/-- A batch leaves nothing in the buffer. -/
theorem sendBatch_spec (hnet : ∀ conn op, net conn op = none) (flushAt : Nat) (s : σ)
    (batch : List (α × Nat))
    (hencode : ∀ a ∈ batch.map Prod.fst, Admissible (frameOf a) ∧
      ∀ s, ∃ s', encode s a = some (s', frameOf a))
    (h : Holds w waiting) :
    ∃ s' w', sendBatch encode net flushAt s w batch = some (s', w', .ok ()) ∧ Holds w' [] ∧
      written w'.conn = written w.conn ++ waiting.flatten ++
        ((batch.map Prod.fst).map frameOf).flatten := by
  induction batch generalizing s w waiting with
  | nil =>
    by_cases hbuf : w.buffer.buf = []
    · refine ⟨s, w, ?_, ⟨h.size, h.working, h.fits, hbuf⟩, ?_⟩
      · rw [sendBatch, flush_empty flushAt hbuf]
      · rw [← h.buf, hbuf, List.append_nil]
        exact (List.append_nil _).symm
    · refine ⟨s, ⟨w.conn ++ [.setWriteDeadline (flushAt + tcpWriteTimeout), .write waiting.flatten],
        { w.buffer with buf := [] }⟩, ?_, ⟨h.size, h.working, Nat.zero_le _, rfl⟩, ?_⟩
      · rw [sendBatch, h.flush_eq hnet flushAt hbuf]
      · simp [written]
  | cons item rest ih =>
    obtain ⟨a, now⟩ := item
    rw [List.map_cons, List.forall_mem_cons] at hencode
    obtain ⟨⟨hadm, hframe⟩, hrest⟩ := hencode
    change Admissible (frameOf a) at hadm
    obtain ⟨s₁, henc⟩ := hframe s
    have hsize : (frameOf a).length ≤ connectionWriteBufferBytes := by
      have hlength := hadm.length
      have hmax := hadm.max
      unfold connectionWriteBufferBytes
      omega
    obtain ⟨sent, waiting', w₁, hbuffer, hholds, hsends, hframes⟩ :=
      h.bufferFrame_eq hnet now hsize
    obtain ⟨s', w', hsend, hlast, hwritten⟩ := ih s₁ hrest hholds
    refine ⟨s', w', ?_, hlast, ?_⟩
    · rw [sendBatch, henc, Option.bind_some]
      simp only [hbuffer]
      exact hsend
    · have hall := congrArg List.flatten hframes
      rw [List.flatten_append, List.flatten_append, List.flatten_singleton] at hall
      rw [hwritten, show written w₁.conn = _ from hsends.written, List.append_assoc (written w.conn),
        hall, List.map_cons, List.map_cons, List.flatten_cons]
      simp only [List.append_assoc]

/-- **All frames are written, in the order of the values.** -/
theorem sendBatches_spec (hnet : ∀ conn op, net conn op = none) (s : σ)
    (batches : List (List (α × Nat) × Nat))
    (hencode : ∀ a ∈ sentValues batches, Admissible (frameOf a) ∧
      ∀ s, ∃ s', encode s a = some (s', frameOf a))
    (h : Holds w []) :
    ∃ s' w', sendBatches encode net s w batches = some (s', w', .ok ()) ∧
      written w'.conn = written w.conn ++ ((sentValues batches).map frameOf).flatten := by
  induction batches generalizing s w with
  | nil => exact ⟨s, w, rfl, (List.append_nil _).symm⟩
  | cons batch rest ih =>
    obtain ⟨batch, flushAt⟩ := batch
    have hvalues : sentValues ((batch, flushAt) :: rest) = batch.map Prod.fst ++ sentValues rest :=
      rfl
    rw [hvalues] at hencode ⊢
    obtain ⟨s₁, w₁, hsend, hholds, hwritten⟩ := sendBatch_spec encode frameOf hnet flushAt s batch
      (fun a ha => hencode a (List.mem_append_left _ ha)) h
    obtain ⟨s', w', hsends, hall⟩ := ih s₁ (fun a ha => hencode a (List.mem_append_right _ ha)) hholds
    refine ⟨s', w', ?_, ?_⟩
    · rw [sendBatches, hsend, Option.bind_some]
      exact hsends
    · rw [hall, hwritten, List.flatten_nil, List.append_nil, List.map_append, List.flatten_append,
        List.append_assoc]

theorem holds_newFrameWriter : Holds newFrameWriter [] := ⟨rfl, rfl, Nat.zero_le _, rfl⟩

end Sends

/-! ## Receiving -/

theorem readFrame_self {frame : List UInt8} (h : Admissible frame) :
    readFrame frame = .complete frame [] := by
  have hread := h.readFrame_append []
  rwa [List.append_nil] at hread

/-- A part of a stream of frames has the first of them, and a part of the next one. -/
theorem splits_of_part {frames : List (List UInt8)} (hall : ∀ frame ∈ frames, Admissible frame)
    {stream : List UInt8} (h : stream <+: frames.flatten) :
    ∃ k rest, k ≤ frames.length ∧ Splits stream (frames.take k) (FrameReader.atEnd rest) ∧
      (stream = frames.flatten → k = frames.length ∧ rest = []) := by
  induction frames generalizing stream with
  | nil =>
    have hnil : stream = [] := List.prefix_nil.mp h
    subst hnil
    exact ⟨0, [], le_rfl, ⟨[], rfl, by rintro _ ⟨⟩, rfl⟩, fun _ => ⟨rfl, rfl⟩⟩
  | cons frame frames ih =>
    obtain ⟨hadm, hrest⟩ := List.forall_mem_cons.mp hall
    rw [List.flatten_cons] at h
    rcases readFrame_of_part (readFrame_self hadm) h with ⟨hread, hnot⟩ | ⟨tail, rfl, -⟩
    · refine ⟨0, stream, Nat.zero_le _, ⟨stream, rfl, by rintro _ ⟨⟩, ?_⟩, fun heq => ?_⟩
      · exact FrameReader.endsAt_incomplete hread
      · rw [heq, List.flatten_cons] at hnot
        exact absurd (List.prefix_append ..) hnot
    · obtain ⟨k, rest, hk, ⟨last, hlast, hframes, hend⟩, hfull⟩ := ih hrest
        ((List.prefix_append_right_inj frame).mp h)
      refine ⟨k + 1, rest, Nat.succ_le_succ hk, ⟨last, ?_, ?_, hend⟩, fun heq => ?_⟩
      · rw [List.take_succ_cons, List.flatten_cons, hlast, List.append_assoc]
      · rw [List.take_succ_cons]
        exact List.forall_mem_cons.mpr ⟨hadm, hframes⟩
      · rw [List.flatten_cons] at heq
        obtain ⟨hk', hrest'⟩ := hfull (List.append_cancel_left heq)
        exact ⟨congrArg (· + 1) hk', hrest'⟩

/-- **The reader finds the frames that are complete**, and then that the stream has ended. -/
theorem readFrames_part {frames : List (List UInt8)} (hall : ∀ frame ∈ frames, Admissible frame)
    {src : List (List UInt8)} (h : src.flatten <+: frames.flatten) (eager : Bool)
    (hsrc : Bufio.Reader.Flowing (Bufio.maxConsecutiveEmptyReads - 1) src) {fuel : Nat}
    (hfuel : src.flatten.length < fuel) :
    ∃ k ending, FrameReader.readFrames fuel (FrameReader.newFrameReader src eager) =
        (frames.take k, some ending) ∧
      (ending = .buffer .eof ∨ ending = .unexpectedEOF) ∧
      (src.flatten = frames.flatten → k = frames.length ∧ ending = .buffer .eof) := by
  obtain ⟨k, rest, hk, hsplits, hfull⟩ := splits_of_part hall h
  obtain ⟨frames', ending', hread, hsplits'⟩ :=
    FrameReader.readFrames_spec fuel (FrameReader.good_newFrameReader eager hsrc) hfuel
  obtain ⟨rfl, rfl⟩ := hsplits'.unique hsplits
  refine ⟨k, _, hread, ?_, fun heq => ?_⟩
  · unfold FrameReader.atEnd
    split_ifs
    · exact Or.inl rfl
    · exact Or.inr rfl
  · obtain ⟨hk', hrest⟩ := hfull heq
    exact ⟨hk', if_pos hrest⟩

/-! ## Both directions -/

/-- What the other side makes of the frames that it finds. -/
def received {ε β : Type} (decode : List UInt8 → Except ε β) (fuel : Nat) (src : List (List UInt8))
    (eager : Bool) : List (Except ε β) × Option Transport.ReadError :=
  let (frames, ending) := FrameReader.readFrames fuel (FrameReader.newFrameReader src eager)
  (frames.map decode, ending)

theorem received_part {α ε β : Type} {decode : List UInt8 → Except ε β} (frameOf : α → List UInt8)
    {meaning : α → Except ε β} {values : List α}
    (hvalues : ∀ a ∈ values, Admissible (frameOf a) ∧ decode (frameOf a) = meaning a)
    {src : List (List UInt8)} (h : src.flatten <+: (values.map frameOf).flatten) (eager : Bool)
    (hsrc : Bufio.Reader.Flowing (Bufio.maxConsecutiveEmptyReads - 1) src) {fuel : Nat}
    (hfuel : src.flatten.length < fuel) :
    ∃ k ending, received decode fuel src eager = ((values.take k).map meaning, some ending) ∧
      (ending = .buffer .eof ∨ ending = .unexpectedEOF) ∧
      (src.flatten = (values.map frameOf).flatten → k = values.length ∧ ending = .buffer .eof) := by
  have hall : ∀ frame ∈ values.map frameOf, Admissible frame := by
    intro frame hframe
    obtain ⟨a, ha, rfl⟩ := List.mem_map.mp hframe
    exact (hvalues a ha).1
  obtain ⟨k, ending, hread, hending, hfull⟩ := readFrames_part hall h eager hsrc hfuel
  refine ⟨k, ending, ?_, hending, fun heq => ?_⟩
  · unfold received
    rw [hread]
    dsimp only
    rw [← List.map_take, List.map_map]
    refine congrArg (·, some ending) (List.map_congr_left fun a ha => ?_)
    exact (hvalues a (List.mem_of_mem_take ha)).2
  · obtain ⟨hk, hend⟩ := hfull heq
    exact ⟨hk.trans (List.length_map ..), hend⟩

variable {rt : Runtime}

theorem sendRequests_spec (hrt : Documented rt) {net : Net} (hnet : ∀ conn op, net conn op = none)
    (batches : List (List (OutboundRequest × Nat) × Nat)) :
    ∃ b w, sendRequests rt net batches = some (b, w, .ok ()) ∧
      written w.conn = ((sentValues batches).map fun r => r.frame rt).flatten :=
  sendBatches_spec (encodeRequest rt) (OutboundRequest.frame rt) hnet (rt.newBuilder initialBufferSize)
    batches (fun r _ => ⟨(r.frame_spec hrt).1, fun b => encodeRequest_frame hrt b r⟩)
    holds_newFrameWriter

/-- The requests of a connection of package `client`, encoded with one builder and flushed in any
batches, where FlatBuffers is as documented. Whatever part of the stream arrives, in whatever pieces,
the server decodes the first requests, each exactly as it was submitted and in this order, and then
finds the end of the stream; it decodes all of them if everything arrives. -/
theorem requests_received (rt : Runtime) (hrt : Documented rt) (net : Net)
    (hnet : ∀ conn op, net conn op = none) (batches : List (List (OutboundRequest × Nat) × Nat)) :
    ∃ b w, sendRequests rt net batches = some (b, w, .ok ()) ∧
      ∀ src eager fuel session,
        Bufio.Reader.Flowing (Bufio.maxConsecutiveEmptyReads - 1) src →
        src.flatten.length < fuel → src.flatten <+: written w.conn →
        ∃ k ending,
          received (decodeRequest (generatedAccessors rt.toReader) · session) fuel src eager =
            (((sentValues batches).take k).map fun r => r.meaning session, some ending) ∧
          (ending = .buffer .eof ∨ ending = .unexpectedEOF) ∧
          (src.flatten = written w.conn →
            k = (sentValues batches).length ∧ ending = .buffer .eof) := by
  obtain ⟨b, w, hsend, hwritten⟩ := sendRequests_spec hrt hnet batches
  refine ⟨b, w, hsend, fun src eager fuel session hsrc hfuel hpart => ?_⟩
  rw [hwritten] at hpart ⊢
  exact received_part (OutboundRequest.frame rt)
    (fun r _ => ⟨(r.frame_spec hrt).1, (r.frame_spec hrt).2.1 session⟩) hpart eager hsrc hfuel

/-- The `Read` calls return the stream in two pieces. -/
def twoPieces (stream : List UInt8) : List (List UInt8) := [stream.take 7, stream.drop 7]

theorem flowing_twoPieces (stream : List UInt8) :
    Bufio.Reader.Flowing (Bufio.maxConsecutiveEmptyReads - 1) (twoPieces stream) := by
  unfold twoPieces
  cases stream.take 7 <;> cases stream.drop 7 <;> trivial

theorem flatten_twoPieces (stream : List UInt8) : (twoPieces stream).flatten = stream := by
  simp [twoPieces]

/-- An Acquire and a Renew in one batch, then a Release. -/
def leaseBatches : List (List (OutboundRequest × Nat) × Nat) :=
  [([(⟨1, 7, 1, 3000, 5, 9, ClientOperation.acquire⟩, 10),
      (⟨2, 7, 1, 3000, 5, 9, ClientOperation.renew⟩, 11)], 12),
    ([(⟨3, 7, 1, 0, 5, 9, ClientOperation.release⟩, 20)], 21)]

/-- The whole stream arrives, in two pieces, and the server finds the three requests. -/
theorem requests_received_leaseBatches :
    ∃ b w, sendRequests plainRuntime (fun _ _ => none) leaseBatches = some (b, w, .ok ()) ∧
      received (decodeRequest goAccessors · 0) ((written w.conn).length + 1)
          (twoPieces (written w.conn)) true =
        ([.ok (.lease ⟨1, .acquire, 7, ⟨5, 9, 1⟩, 3000, 0⟩),
          .ok (.lease ⟨2, .renew, 7, ⟨5, 9, 1⟩, 3000, 0⟩),
          .ok (.lease ⟨3, .release, 7, ⟨5, 9, 1⟩, 0, 0⟩)], some (.buffer .eof)) := by
  obtain ⟨b, w, hsend, hreceived⟩ := requests_received plainRuntime documented_plainRuntime
    (fun _ _ => none) (fun _ _ => rfl) leaseBatches
  have hflatten := flatten_twoPieces (written w.conn)
  obtain ⟨k, ending, hread, -, hall⟩ := hreceived (twoPieces (written w.conn)) true
    ((written w.conn).length + 1) 0 (flowing_twoPieces _) (by rw [hflatten]; exact Nat.lt_succ_self _)
    (by rw [hflatten])
  obtain ⟨rfl, rfl⟩ := hall hflatten
  exact ⟨b, w, hsend, hread⟩

theorem responseFrame_eq {b b' : rt.Builder} {r : Response} {frame : List UInt8}
    (h : encodeResponse rt b r = some (.ok (b', frame))) :
    responseFrame rt b r = some (b', frame) := by
  unfold responseFrame
  rw [h]

theorem sendResponses_spec (hrt : Documented rt) {net : Net} (hnet : ∀ conn op, net conn op = none)
    (batches : List (List (Response × Nat) × Nat))
    (hbatches : ∀ r ∈ sentValues batches, InRange r ∧ Encodable r) :
    ∃ frameOf : Response → List UInt8,
      (∀ r ∈ sentValues batches,
        Admissible (frameOf r) ∧ decodeResponse rt (frameOf r) = .ok (transmitted r)) ∧
      ∃ b w, sendResponses rt net batches = some (b, w, .ok ()) ∧
        written w.conn = ((sentValues batches).map frameOf).flatten := by
  choose! frameOf hadm hdecode hencode using
    fun (r : Response) (h : InRange r ∧ Encodable r) => encodeResponse_frame hrt h.1 h.2
  refine ⟨frameOf, fun r hr => ⟨hadm r (hbatches r hr), hdecode r (hbatches r hr)⟩, ?_⟩
  refine sendBatches_spec (responseFrame rt) frameOf hnet (rt.newBuilder initialBufferSize) batches
    (fun r hr => ⟨hadm r (hbatches r hr), fun b => ?_⟩) holds_newFrameWriter
  obtain ⟨b', hb'⟩ := hencode r (hbatches r hr) b
  exact ⟨b', responseFrame_eq hb'⟩

/-- The responses of a connection, encoded by the server with one builder and flushed in any batches,
where FlatBuffers is as documented. Whatever part of the stream arrives, in whatever pieces, the client
decodes the first responses in this order, each as it was sent, and then finds the end of the stream;
it decodes all of them if everything arrives. -/
theorem responses_received (rt : Runtime) (hrt : Documented rt) (net : Net)
    (hnet : ∀ conn op, net conn op = none) (batches : List (List (Response × Nat) × Nat))
    (hbatches : ∀ r ∈ sentValues batches, InRange r ∧ Encodable r) :
    ∃ b w, sendResponses rt net batches = some (b, w, .ok ()) ∧
      ∀ src eager fuel,
        Bufio.Reader.Flowing (Bufio.maxConsecutiveEmptyReads - 1) src →
        src.flatten.length < fuel → src.flatten <+: written w.conn →
        ∃ k ending, received (decodeResponse rt) fuel src eager =
            (((sentValues batches).take k).map fun r => .ok (transmitted r), some ending) ∧
          (ending = .buffer .eof ∨ ending = .unexpectedEOF) ∧
          (src.flatten = written w.conn →
            k = (sentValues batches).length ∧ ending = .buffer .eof) := by
  obtain ⟨frameOf, hframes, b, w, hsend, hwritten⟩ := sendResponses_spec hrt hnet batches hbatches
  refine ⟨b, w, hsend, fun src eager fuel hsrc hfuel hpart => ?_⟩
  rw [hwritten] at hpart ⊢
  exact received_part frameOf hframes hpart eager hsrc hfuel

/-- A grant, and a Release that comes with a TTL, in two batches. -/
def grantBatches : List (List (Response × Nat) × Nat) :=
  [([(⟨1, ClientOperation.acquire, LeaseStatus.ok, 3000⟩, 10)], 11),
    ([(⟨3, ClientOperation.release, LeaseStatus.stale, 40⟩, 20)], 21)]

/-- The whole stream arrives, in two pieces; the TTL of the Release is not sent. -/
theorem responses_received_grantBatches :
    (∀ r ∈ sentValues grantBatches, InRange r ∧ Encodable r) ∧
    ∃ b w, sendResponses plainRuntime (fun _ _ => none) grantBatches = some (b, w, .ok ()) ∧
      received (decodeResponse plainRuntime) ((written w.conn).length + 1)
          (twoPieces (written w.conn)) true =
        ([.ok ⟨1, ClientOperation.acquire, LeaseStatus.ok, 3000⟩,
          .ok ⟨3, ClientOperation.release, LeaseStatus.stale, 0⟩], some (.buffer .eof)) := by
  have hbatches : ∀ r ∈ sentValues grantBatches, InRange r ∧ Encodable r := by
    intro r hr
    simp only [sentValues, grantBatches, List.flatMap_cons, List.flatMap_nil, List.map_cons,
      List.map_nil, List.append_nil, List.singleton_append, List.mem_cons, List.not_mem_nil,
      or_false] at hr
    rcases hr with rfl | rfl
    · exact ⟨⟨by decide, by decide⟩, _, rfl⟩
    · exact ⟨⟨by decide, by decide⟩, _, rfl⟩
  refine ⟨hbatches, ?_⟩
  obtain ⟨b, w, hsend, hreceived⟩ := responses_received plainRuntime documented_plainRuntime
    (fun _ _ => none) (fun _ _ => rfl) grantBatches hbatches
  have hflatten := flatten_twoPieces (written w.conn)
  obtain ⟨k, ending, hread, -, hall⟩ := hreceived (twoPieces (written w.conn)) true
    ((written w.conn).length + 1) (flowing_twoPieces _) (by rw [hflatten]; exact Nat.lt_succ_self _)
    (by rw [hflatten])
  obtain ⟨rfl, rfl⟩ := hall hflatten
  exact ⟨b, w, hsend, hread⟩

end RedLease.Wire
