import RedLease.Lib.FlatBuffers.Builder
import RedLease.Server.Reading
import RedLease.Wire.Schema

/-!
# Requests on the wire

The two encoders of requests, `encodeRequest` of package `client`, which uses one builder for all
requests of a connection, and the functions of `client1of1`, which take a builder from a pool, and
what the server's `processRequest` reads in what they have built. FlatBuffers is a parameter, of which
only what `Documented` says is assumed.

* **`OutboundRequest.frame_spec`**: every request has one frame, whichever builder builds it, and the
  server makes of it exactly the request, or rejects an operation that is none.
* **`request_frame`**: both packages build it.
-/

namespace RedLease.Wire

open Lib.FlatBuffers Transport Server

variable (rt : Runtime)

/-! ## Package `client` -/

/-- `client.outboundConnectionRequest`. -/
structure OutboundRequest where
  requestID : UInt64
  key : UInt64
  sequence : UInt64
  ttlMS : UInt64
  clientID : UInt32
  bootID : UInt32
  operation : ClientOperation
  deriving DecidableEq, Repr

/-- `client.encodeRequest`. -/
def encodeRequest (b : rt.Builder) (r : OutboundRequest) : Option (rt.Builder × List UInt8) := do
  let b ← clientRequestStart rt (rt.reset b)
  let b ← clientRequestAddRequestID rt b r.requestID.toNat
  let b ← clientRequestAddOperation rt b r.operation
  let b ←
    if r.operation = ClientOperation.acquire then do
      let (b, acquire) ← createAcquireRequest rt b r.key.toNat r.clientID.toNat r.bootID.toNat
        r.sequence.toNat r.ttlMS.toNat
      clientRequestAddAcquire rt b acquire
    else if r.operation = ClientOperation.renew then do
      let (b, renew) ← createRenewRequest rt b r.key.toNat r.clientID.toNat r.bootID.toNat
        r.sequence.toNat r.ttlMS.toNat
      clientRequestAddRenew rt b renew
    else if r.operation = ClientOperation.release then do
      let (b, release) ← createReleaseRequest rt b r.key.toNat r.clientID.toNat r.bootID.toNat
        r.sequence.toNat
      clientRequestAddRelease rt b release
    else some b
  let (b, root) ← rt.endObject b
  let b ← rt.finishSizePrefixed b root
  let frame ← rt.finishedBytes b
  return (b, frame)

/-! ## Package `client1of1` -/

/-- The fields of `client1of1.Client` that a request takes. -/
structure Sender where
  clientID : UInt32
  bootID : UInt32
  nextRequestID : UInt64
  deriving DecidableEq, Repr

/-- `transport.InitialBufferSize`. -/
def initialBufferSize : Nat := 128

/-- `newOutboundRequest`, with the builder that the pool has given, if any. -/
def newOutboundRequest (pooled : Option rt.Builder) : rt.Builder :=
  match pooled with
  | some b => rt.reset b
  | none => rt.newBuilder initialBufferSize

/-- `finishOutboundRequest`. -/
def finishOutboundRequest (b : rt.Builder) : Option rt.Builder := do
  let (b, root) ← rt.endObject b
  rt.finishSizePrefixed b root

/-- `newAcquireRequest`: the request ID and the builder that holds the frame. -/
def newAcquireRequest (c : Sender) (pooled : Option rt.Builder) (key sequence ttlMS : UInt64) :
    Option (Sender × UInt64 × rt.Builder) := do
  let requestID := c.nextRequestID + 1
  let b ← clientRequestStart rt (newOutboundRequest rt pooled)
  let b ← clientRequestAddRequestID rt b requestID.toNat
  let b ← clientRequestAddOperation rt b ClientOperation.acquire
  let (b, acquire) ← createAcquireRequest rt b key.toNat c.clientID.toNat c.bootID.toNat sequence.toNat
    ttlMS.toNat
  let b ← clientRequestAddAcquire rt b acquire
  let b ← finishOutboundRequest rt b
  return ({ c with nextRequestID := requestID }, requestID, b)

/-- `newRenewRequest`. -/
def newRenewRequest (c : Sender) (pooled : Option rt.Builder) (key sequence ttlMS : UInt64) :
    Option (Sender × UInt64 × rt.Builder) := do
  let requestID := c.nextRequestID + 1
  let b ← clientRequestStart rt (newOutboundRequest rt pooled)
  let b ← clientRequestAddRequestID rt b requestID.toNat
  let b ← clientRequestAddOperation rt b ClientOperation.renew
  let (b, renew) ← createRenewRequest rt b key.toNat c.clientID.toNat c.bootID.toNat sequence.toNat
    ttlMS.toNat
  let b ← clientRequestAddRenew rt b renew
  let b ← finishOutboundRequest rt b
  return ({ c with nextRequestID := requestID }, requestID, b)

/-- `newReleaseRequest`. -/
def newReleaseRequest (c : Sender) (pooled : Option rt.Builder) (key sequence : UInt64) :
    Option (Sender × UInt64 × rt.Builder) := do
  let requestID := c.nextRequestID + 1
  let b ← clientRequestStart rt (newOutboundRequest rt pooled)
  let b ← clientRequestAddRequestID rt b requestID.toNat
  let b ← clientRequestAddOperation rt b ClientOperation.release
  let (b, release) ← createReleaseRequest rt b key.toNat c.clientID.toNat c.bootID.toNat sequence.toNat
  let b ← clientRequestAddRelease rt b release
  let b ← finishOutboundRequest rt b
  return ({ c with nextRequestID := requestID }, requestID, b)

/-! ## What a request means -/

namespace OutboundRequest

/-- The operation that the server is to apply. -/
def lease (r : OutboundRequest) (kind : OperationKind) (session : Nat) : Operation where
  requestID := r.requestID.toNat
  kind
  key := r.key.toNat
  leaseID := ⟨r.clientID.toNat, r.bootID.toNat, r.sequence.toNat⟩
  requestedTTLMS := if kind = .release then 0 else r.ttlMS.toNat
  session

/-- What the server is to make of a request. -/
def meaning (r : OutboundRequest) (session : Nat) : Except Malformed Request :=
  if r.operation = ClientOperation.acquire then .ok (.lease (r.lease .acquire session))
  else if r.operation = ClientOperation.renew then .ok (.lease (r.lease .renew session))
  else if r.operation = ClientOperation.release then .ok (.lease (r.lease .release session))
  else if r.operation = ClientOperation.getTTL then .ok (.getTTL r.requestID.toNat)
  else .error (.unsupportedOperation r.operation)

/-- The parts of a payload; those of `AcquireRequest` and `RenewRequest` end with the TTL. -/
def parts (r : OutboundRequest) (kind : OperationKind) : List Part :=
  .scalar 8 r.key.toNat :: .scalar 4 r.clientID.toNat :: .scalar 4 r.bootID.toNat ::
    .scalar 8 r.sequence.toNat :: if kind = .release then [] else [.scalar 8 r.ttlMS.toNat]

/-- The payload of one kind. -/
def leasePayload (r : OutboundRequest) : OperationKind → Field
  | .acquire => .struct 2 8 32 (r.parts .acquire)
  | .renew => .struct 3 8 32 (r.parts .renew)
  | .release => .struct 4 8 24 (r.parts .release)

/-- The struct of a request, by its operation. -/
def payload (r : OutboundRequest) : Option Field :=
  if r.operation = ClientOperation.acquire then some (r.leasePayload .acquire)
  else if r.operation = ClientOperation.renew then some (r.leasePayload .renew)
  else if r.operation = ClientOperation.release then some (r.leasePayload .release)
  else none

/-- The table that both packages build. -/
def fields (r : OutboundRequest) : List Field :=
  message r.requestID.toNat r.operation.toNat r.payload

/-- The frame of a request. -/
def frame (r : OutboundRequest) : List UInt8 := rt.frame 5 r.fields

end OutboundRequest

/-! ## The encoders build the table -/

theorem encodeRequest_eq (b : rt.Builder) (r : OutboundRequest) :
    encodeRequest rt b r = (rt.buildTable (rt.reset b) 5 r.fields).bind fun b =>
      (rt.finishedBytes b).bind fun frame => some (b, frame) := by
  unfold encodeRequest OutboundRequest.fields OutboundRequest.payload Runtime.buildTable
  simp only [Option.bind_eq_bind, Option.pure_def, Option.bind_assoc]
  split_ifs
  all_goals
    simp only [message, OutboundRequest.leasePayload, Option.toList, Runtime.addFields,
      Runtime.addField, Option.bind_some, Option.bind_assoc]
    rfl

/-- The three functions of `client1of1` for one request. -/
def newRequest (c : Sender) (pooled : Option rt.Builder) (kind : OperationKind)
    (key sequence ttlMS : UInt64) : Option (Sender × UInt64 × rt.Builder) :=
  match kind with
  | .acquire => newAcquireRequest rt c pooled key sequence ttlMS
  | .renew => newRenewRequest rt c pooled key sequence ttlMS
  | .release => newReleaseRequest rt c pooled key sequence

/-- The same request in package `client`. -/
def Sender.request (c : Sender) (kind : OperationKind) (key sequence ttlMS : UInt64) :
    OutboundRequest :=
  ⟨c.nextRequestID + 1, key, sequence, ttlMS, c.clientID, c.bootID, OperationKind.code kind⟩

theorem Sender.request_payload (c : Sender) (kind : OperationKind) (key sequence ttlMS : UInt64) :
    (c.request kind key sequence ttlMS).payload =
      some ((c.request kind key sequence ttlMS).leasePayload kind) := by
  cases kind <;> rfl

theorem newRequest_eq (c : Sender) (pooled : Option rt.Builder) (kind : OperationKind)
    (key sequence ttlMS : UInt64) :
    newRequest rt c pooled kind key sequence ttlMS =
      (rt.buildTable (newOutboundRequest rt pooled) 5
        (c.request kind key sequence ttlMS).fields).bind fun b =>
          some ({ c with nextRequestID := c.nextRequestID + 1 }, c.nextRequestID + 1, b) := by
  unfold newRequest OutboundRequest.fields Runtime.buildTable
  rw [Sender.request_payload]
  cases kind
  all_goals
    simp only [newAcquireRequest, newRenewRequest, newReleaseRequest, finishOutboundRequest,
      message, OutboundRequest.leasePayload, Option.toList, Runtime.addFields, Runtime.addField,
      Option.bind_eq_bind, Option.pure_def, Option.bind_some, Option.bind_assoc]
    rfl

/-! ## The server reads the table -/

namespace OutboundRequest

variable (r : OutboundRequest)

theorem leasePayload_fits (kind : OperationKind) : Fits 5 (r.leasePayload kind) := by
  have hkey := r.key.toNat_lt
  have hclient := r.clientID.toNat_lt
  have hboot := r.bootID.toNat_lt
  have hseq := r.sequence.toNat_lt
  have httl := r.ttlMS.toNat_lt
  cases kind
  all_goals
    refine ⟨⟨by simp, ?_, rfl, by simp, by simp⟩, by simp [leasePayload, Field.slot],
      by simp [leasePayload, Field.slot], by simp [leasePayload, Field.room]⟩
    simp [parts, Aligned, structSize, Part.length, *]

theorem payload_fits : ∀ f ∈ r.payload, Fits 5 f := by
  intro f hf
  unfold payload at hf
  split_ifs at hf <;> cases hf
  all_goals exact r.leasePayload_fits _

theorem wellFormed : WellFormed 5 r.fields :=
  wellFormed_message (by decide) r.requestID.toNat_lt r.operation.toNat_lt r.payload_fits

end OutboundRequest

section Reads

variable {rt} {r : OutboundRequest} {kind : OperationKind}

/-- The fields of a payload. -/
theorem decodeLease_frame (hrt : Documented rt) (hpayload : r.payload = some (r.leasePayload kind))
    (session : Nat) : decodeLease (generatedAccessors rt.toReader) (r.frame rt) session kind =
      .ok (.lease (r.lease kind session)) := by
  have hstruct : ∃ slot size, r.leasePayload kind = .struct slot 8 size (r.parts kind) ∧
      4 + 2 * slot = payloadOffset kind := by
    cases kind <;> exact ⟨_, _, rfl, rfl⟩
  obtain ⟨slot, size, hstruct, hslot⟩ := hstruct
  have hmem : .struct slot 8 size (r.parts kind) ∈ r.fields := by
    rw [OutboundRequest.fields, message, hpayload, hstruct]
    simp
  obtain ⟨pos, hfield, hparts⟩ := hrt.structField r.wellFormed hmem
  rw [hslot] at hfield
  have hpart {k o x : Nat} (before after : List Part)
      (hsplit : r.parts kind = before ++ .scalar k x :: after) (ho : structSize before = o) :
      payloadField rt.toReader k o kind (r.frame rt) = some x := by
    unfold payloadField
    rw [OutboundRequest.frame, hfield, Option.bind_some, ← ho]
    exact hparts before k x after hsplit
  have hpresent : (generatedAccessors rt.toReader).payload kind (r.frame rt) = some true :=
    congrArg (Option.map _) hfield
  have hrequest : (generatedAccessors rt.toReader).requestID (r.frame rt) = some r.requestID.toNat :=
    hrt.scalarField r.wellFormed (List.mem_cons_self ..)
  have hkey : (generatedAccessors rt.toReader).key kind (r.frame rt) = some r.key.toNat :=
    hpart [] _ rfl rfl
  have hclient : (generatedAccessors rt.toReader).clientID kind (r.frame rt) =
      some r.clientID.toNat := hpart [.scalar 8 r.key.toNat] _ rfl rfl
  have hboot : (generatedAccessors rt.toReader).bootID kind (r.frame rt) = some r.bootID.toNat :=
    hpart [.scalar 8 r.key.toNat, .scalar 4 r.clientID.toNat] _ rfl rfl
  have hseq : (generatedAccessors rt.toReader).leaseSeq kind (r.frame rt) = some r.sequence.toNat :=
    hpart [.scalar 8 r.key.toNat, .scalar 4 r.clientID.toNat, .scalar 4 r.bootID.toNat] _ rfl rfl
  have httl (hkind : r.parts kind = [.scalar 8 r.key.toNat, .scalar 4 r.clientID.toNat,
      .scalar 4 r.bootID.toNat, .scalar 8 r.sequence.toNat, .scalar 8 r.ttlMS.toNat]) :
      payloadField rt.toReader 8 24 kind (r.frame rt) = some r.ttlMS.toNat :=
    hpart [.scalar 8 r.key.toNat, .scalar 4 r.clientID.toNat, .scalar 4 r.bootID.toNat,
      .scalar 8 r.sequence.toNat] [] hkind rfl
  unfold Server.decodeLease
  rw [hpresent, hrequest, hkey, hclient, hboot, hseq]
  cases kind with
  | acquire =>
    have httl' : (generatedAccessors rt.toReader).requestedTTLMS .acquire (r.frame rt) =
        some r.ttlMS.toNat := httl rfl
    rw [httl']
    rfl
  | renew =>
    have httl' : (generatedAccessors rt.toReader).requestedTTLMS .renew (r.frame rt) =
        some r.ttlMS.toNat := httl rfl
    rw [httl']
    rfl
  | release => rfl

theorem decodeRequest_of_operation {fb : Accessors} {frame : List UInt8} {op : ClientOperation}
    (h : fb.operation frame = some op) (session : Nat) :
    decodeRequest fb frame session =
      if op = ClientOperation.acquire then decodeLease fb frame session .acquire
      else if op = ClientOperation.renew then decodeLease fb frame session .renew
      else if op = ClientOperation.release then decodeLease fb frame session .release
      else if op = ClientOperation.getTTL then (recover (fb.requestID frame)).map .getTTL
      else .error (.unsupportedOperation op) := by
  unfold decodeRequest
  rw [h]
  rfl

/-- **The server reads what was built.** -/
theorem decodeRequest_frame (hrt : Documented rt) (r : OutboundRequest) (session : Nat) :
    decodeRequest (generatedAccessors rt.toReader) (r.frame rt) session = r.meaning session := by
  have hop : (generatedAccessors rt.toReader).operation (r.frame rt) = some r.operation := by
    have htag := hrt.scalarField r.wellFormed (List.mem_cons_of_mem _ (List.mem_cons_self ..))
    exact (congrArg (Option.map UInt8.ofNat) htag).trans (congrArg some UInt8.ofNat_toNat)
  have hid : (generatedAccessors rt.toReader).requestID (r.frame rt) = some r.requestID.toNat :=
    hrt.scalarField r.wellFormed (List.mem_cons_self ..)
  have hlease {kind : OperationKind} (hpayload : r.payload = some (r.leasePayload kind)) :=
    decodeLease_frame hrt hpayload session
  rw [decodeRequest_of_operation hop, OutboundRequest.meaning]
  unfold OutboundRequest.payload at hlease
  split_ifs at hlease ⊢
  · exact hlease rfl
  · exact hlease rfl
  · exact hlease rfl
  · rw [hid]
    rfl
  · rfl

end Reads

/-! ## One frame for every request -/

variable {rt}

/-- Every fresh builder builds the frame. -/
theorem OutboundRequest.frame_spec (hrt : Documented rt) (r : OutboundRequest) :
    Admissible (r.frame rt) ∧
      (∀ session, Server.decodeRequest (generatedAccessors rt.toReader) (r.frame rt) session =
        r.meaning session) ∧
      ∀ b, rt.Fresh b → ∃ b', rt.buildTable b 5 r.fields = some b' ∧
        rt.finishedBytes b' = some (r.frame rt) :=
  ⟨message_admissible hrt (by decide) r.wellFormed r.payload_fits, decodeRequest_frame hrt r,
    hrt.builds r.wellFormed⟩

theorem encodeRequest_frame (hrt : Documented rt) (b : rt.Builder) (r : OutboundRequest) :
    ∃ b', encodeRequest rt b r = some (b', r.frame rt) := by
  obtain ⟨b', hbuild, hframe⟩ := (r.frame_spec hrt).2.2 _ (Or.inr ⟨b, rfl⟩)
  refine ⟨b', ?_⟩
  rw [encodeRequest_eq, hbuild, Option.bind_some, hframe]
  rfl

theorem newRequest_frame (hrt : Documented rt) (c : Sender) (pooled : Option rt.Builder)
    (kind : OperationKind) (key sequence ttlMS : UInt64) :
    ∃ b, newRequest rt c pooled kind key sequence ttlMS =
        some ({ c with nextRequestID := c.nextRequestID + 1 }, c.nextRequestID + 1, b) ∧
      rt.finishedBytes b = some ((c.request kind key sequence ttlMS).frame rt) := by
  have hfresh : rt.Fresh (newOutboundRequest rt pooled) := by
    cases pooled with
    | none => exact Or.inl ⟨_, rfl⟩
    | some b => exact Or.inr ⟨b, rfl⟩
  obtain ⟨b, hbuild, hframe⟩ := ((c.request kind key sequence ttlMS).frame_spec hrt).2.2 _ hfresh
  refine ⟨b, ?_, hframe⟩
  rw [newRequest_eq, hbuild]
  rfl

/-- Whatever FlatBuffers package is used, if it is as documented: every request has one frame.
`encodeRequest` builds it whatever its builder was used for before, and the functions of `client1of1`
build it in a builder of the pool or in a new one. `ReadFrame` accepts it, and the server finds exactly
this request in it; an operation that is none is rejected as such. -/
theorem request_frame (rt : Runtime) (hrt : Documented rt) :
    (∀ r : OutboundRequest, Admissible (r.frame rt) ∧
      (∀ session, decodeRequest (generatedAccessors rt.toReader) (r.frame rt) session =
        r.meaning session) ∧
      ∀ b, ∃ b', encodeRequest rt b r = some (b', r.frame rt)) ∧
    ∀ c pooled kind key sequence ttlMS, ∃ b,
      newRequest rt c pooled kind key sequence ttlMS =
          some ({ c with nextRequestID := c.nextRequestID + 1 }, c.nextRequestID + 1, b) ∧
        rt.finishedBytes b = some ((c.request kind key sequence ttlMS).frame rt) := by
  refine ⟨fun r => ?_, newRequest_frame hrt⟩
  obtain ⟨hadm, hdecode, -⟩ := r.frame_spec hrt
  exact ⟨hadm, hdecode, fun b => encodeRequest_frame hrt b r⟩

/-- A Release, as both packages send it. -/
def releaseRequest : OutboundRequest := ⟨4, 7, 1, 0, 5, 9, ClientOperation.release⟩

theorem request_frame_releaseRequest :
    Admissible (releaseRequest.frame plainRuntime) ∧
      decodeRequest goAccessors (releaseRequest.frame plainRuntime) 0 =
        .ok (.lease ⟨4, .release, 7, ⟨5, 9, 1⟩, 0, 0⟩) ∧
      ∃ b, newRequest plainRuntime ⟨5, 9, 3⟩ none .release 7 1 0 = some (⟨5, 9, 4⟩, 4, b) ∧
        plainRuntime.finishedBytes b = some (releaseRequest.frame plainRuntime) := by
  obtain ⟨hclient, hsolo⟩ := request_frame plainRuntime documented_plainRuntime
  obtain ⟨hadm, hdecode, -⟩ := hclient releaseRequest
  exact ⟨hadm, hdecode 0, hsolo ⟨5, 9, 3⟩ none .release 7 1 0⟩

end RedLease.Wire
