import RedLease.Lib.FlatBuffers.Builder
import RedLease.Server.Pending
import RedLease.Wire.Schema

/-!
# Responses on the wire

`encodeResponse` of the server down to the bytes, and `DecodeResponse` of the clients. The server's
model has `encodeResponse` up to the table; here the table becomes a frame. FlatBuffers is a parameter,
of which only what `Documented` says is assumed.

* **`encodeResponse_eq`**: the frame is that of the table which the abstract `encodeResponse` gives,
  and both reject the same responses.
* **`readResponse_frame`**: the clients find the response of the table in its frame.
* **`decodeResponse_sendable`**: whatever bytes `DecodeResponse` accepts, the server could have sent
  the response.
* **`response_frame`**: the round trip in both directions.
-/

namespace RedLease.Wire

open Lib.FlatBuffers Transport Server

variable (rt : Runtime)

/-! ## Encoding -/

/-- `encodeResponse`. -/
def encodeResponse (b : rt.Builder) (r : Response) :
    Option (Except EncodeError (rt.Builder × List UInt8)) :=
  if LeaseStatus.keyLimitReached < r.status then some (.error (.unsupportedStatus r.status))
  else if r.operation < ClientOperation.acquire ∨ ClientOperation.getTTL < r.operation then
    some (.error (.unsupportedOperation r.operation))
  else do
    let b ← serverResponseStart rt (rt.reset b)
    let b ← serverResponseAddRequestID rt b r.requestID
    let b ←
      if r.operation = ClientOperation.acquire then do
        let b ← serverResponseAddResult rt b ServerResult.acquire
        let (b, acquire) ← createAcquireResponse rt b r.status r.ttlMS
        serverResponseAddAcquire rt b acquire
      else if r.operation = ClientOperation.renew then do
        let b ← serverResponseAddResult rt b ServerResult.renew
        let (b, renew) ← createRenewResponse rt b r.status r.ttlMS
        serverResponseAddRenew rt b renew
      else if r.operation = ClientOperation.release then do
        let b ← serverResponseAddResult rt b ServerResult.release
        let (b, release) ← createReleaseResponse rt b r.status
        serverResponseAddRelease rt b release
      else do
        -- the range check leaves only `GET_TTL`
        let b ← serverResponseAddResult rt b ServerResult.getTTL
        let (b, getTTL) ← createGetTTLResponse rt b r.ttlMS
        serverResponseAddGetTTL rt b getTTL
    let (b, root) ← rt.endObject b
    let b ← rt.finishSizePrefixed b root
    let frame ← rt.finishedBytes b
    return .ok (b, frame)

/-! ## Decoding -/

/-- The payloads of `ServerResponse`. -/
inductive ResultKind where
  | acquire
  | renew
  | release
  | getTTL
  deriving DecidableEq, Repr

/-- The errors of `DecodeResponse`. -/
inductive DecodeError where
  | recovered
  | missing (kind : ResultKind)
  | unsupportedResult (result : ServerResult)
  | unsupportedStatus (status : LeaseStatus)
  deriving DecidableEq, Repr

/-- The value of an accessor; a panic is recovered. -/
def orRecovered {α : Type} : Option α → Except DecodeError α
  | some a => .ok a
  | none => .error .recovered

/-- `validStatus`. -/
def validStatus (status : LeaseStatus) : Bool :=
  decide (LeaseStatus.ok ≤ status ∧ status ≤ LeaseStatus.keyLimitReached)

/-- The vtable offsets at which `Acquire`, `Renew`, `Release` and `GetTtl` look. -/
def resultOffset : ResultKind → Nat
  | .acquire => 8
  | .renew => 10
  | .release => 12
  | .getTTL => 14

/-- The position of a payload that has to be there. -/
def resultPos (frame : List UInt8) (kind : ResultKind) : Except DecodeError Nat := do
  match ← orRecovered (rt.tableField frame (resultOffset kind)) with
  | some pos => return pos
  | none => .error (.missing kind)

/-- The `Status` of a payload, its first byte. -/
def statusField (frame : List UInt8) (pos : Nat) : Except DecodeError LeaseStatus :=
  (orRecovered (rt.structField frame 1 pos 0)).map UInt8.ofNat

/-- An `AcquireResponse` or a `RenewResponse`. -/
def readGrant (frame : List UInt8) (kind : ResultKind) (requestID : Nat)
    (operation : ClientOperation) : Except DecodeError Response := do
  let pos ← resultPos rt frame kind
  let status ← statusField rt frame pos
  let ttlMS ← orRecovered (rt.structField frame 8 pos 8)
  return ⟨requestID, operation, status, ttlMS⟩

/-- A `ReleaseResponse`. -/
def readRelease (frame : List UInt8) (requestID : Nat) : Except DecodeError Response := do
  let pos ← resultPos rt frame .release
  let status ← statusField rt frame pos
  return ⟨requestID, ClientOperation.release, status, 0⟩

/-- A `GetTTLResponse`. -/
def readGetTTL (frame : List UInt8) (requestID : Nat) : Except DecodeError Response := do
  let pos ← resultPos rt frame .getTTL
  let ttlMS ← orRecovered (rt.structField frame 8 pos 0)
  return ⟨requestID, ClientOperation.getTTL, LeaseStatus.ok, ttlMS⟩

/-- The switch over the result. -/
def readResult (frame : List UInt8) (requestID : Nat) (result : ServerResult) :
    Except DecodeError Response :=
  if result = ServerResult.acquire then readGrant rt frame .acquire requestID ClientOperation.acquire
  else if result = ServerResult.renew then readGrant rt frame .renew requestID ClientOperation.renew
  else if result = ServerResult.release then readRelease rt frame requestID
  else if result = ServerResult.getTTL then readGetTTL rt frame requestID
  else .error (.unsupportedResult result)

/-- The response before its status is checked. -/
def readResponse (frame : List UInt8) : Except DecodeError Response := do
  let requestID ← orRecovered (rt.scalarField frame 8 4 0)
  let result ← orRecovered (rt.scalarField frame 1 6 0)
  readResult rt frame requestID (UInt8.ofNat result)

/-- `DecodeResponse`. -/
def decodeResponse (frame : List UInt8) : Except DecodeError Response := do
  let response ← readResponse rt frame
  if validStatus response.status then return response
  else .error (.unsupportedStatus response.status)

/-! ## The frame of a table -/

/-- The response that a table stands for. -/
def responseOf : ServerResponse → Response
  | .acquire requestID status ttlMS => ⟨requestID, ClientOperation.acquire, status, ttlMS⟩
  | .renew requestID status ttlMS => ⟨requestID, ClientOperation.renew, status, ttlMS⟩
  | .release requestID status => ⟨requestID, ClientOperation.release, status, 0⟩
  | .getTTL requestID ttlMS => ⟨requestID, ClientOperation.getTTL, LeaseStatus.ok, ttlMS⟩

/-- The result of a table and its payload. -/
def resultOf : ServerResponse → ServerResult × Field
  | .acquire _ status ttlMS =>
    (ServerResult.acquire, .struct 2 8 16 [.scalar 1 status.toNat, .padding 7, .scalar 8 ttlMS])
  | .renew _ status ttlMS =>
    (ServerResult.renew, .struct 3 8 16 [.scalar 1 status.toNat, .padding 7, .scalar 8 ttlMS])
  | .release _ status => (ServerResult.release, .struct 4 1 1 [.scalar 1 status.toNat])
  | .getTTL _ ttlMS => (ServerResult.getTTL, .struct 5 8 8 [.scalar 8 ttlMS])

/-- The fields of a table. -/
def tableFields (t : ServerResponse) : List Field :=
  message (responseOf t).requestID (resultOf t).1.toNat (some (resultOf t).2)

/-- **The bytes refine the table**: what the abstract `encodeResponse` rejects is rejected, and the
table that it gives is built. -/
theorem encodeResponse_eq (b : rt.Builder) (r : Response) :
    encodeResponse rt b r =
      match Server.encodeResponse r with
      | .error err => some (.error err)
      | .ok t => (rt.buildTable (rt.reset b) 6 (tableFields t)).bind fun b =>
          (rt.finishedBytes b).bind fun frame => some (.ok (b, frame)) := by
  unfold encodeResponse Server.encodeResponse
  split_ifs
  · rfl
  · rfl
  all_goals
    simp only [tableFields, message, resultOf, Option.toList, Runtime.buildTable, Runtime.addFields,
      Runtime.addField, Option.bind_eq_bind, Option.pure_def, Option.bind_some, Option.bind_assoc]
    rfl

/-- The numbers of a response are `uint64`. -/
structure InRange (r : Response) : Prop where
  requestID : r.requestID < 2 ^ 64
  ttlMS : r.ttlMS < 2 ^ 64

theorem resultOf_fits {t : ServerResponse} (h : InRange (responseOf t)) :
    ∀ f ∈ some (resultOf t).2, Fits 6 f := by
  have httl := h.ttlMS
  rintro f ⟨⟩
  cases t with
  | acquire requestID status ttlMS | renew requestID status ttlMS =>
    have hstatus := status.toNat_lt
    refine ⟨⟨by simp, ?_, rfl, by simp, by simp⟩, by simp [resultOf, Field.slot],
      by simp [resultOf, Field.slot], by simp [resultOf, Field.room]⟩
    exact ⟨by simp, by simp, by simp [structSize, Part.length], hstatus, by simp, by simp,
      by simp [structSize], httl, trivial⟩
  | release requestID status =>
    have hstatus := status.toNat_lt
    refine ⟨⟨by simp, ?_, rfl, by simp, by simp⟩, by simp [resultOf, Field.slot],
      by simp [resultOf, Field.slot], by simp [resultOf, Field.room]⟩
    exact ⟨by simp, by simp, by simp [structSize], hstatus, trivial⟩
  | getTTL requestID ttlMS =>
    refine ⟨⟨by simp, ?_, rfl, by simp, by simp⟩, by simp [resultOf, Field.slot],
      by simp [resultOf, Field.slot], by simp [resultOf, Field.room]⟩
    exact ⟨by simp, by simp, by simp [structSize], httl, trivial⟩

theorem wellFormed_table {t : ServerResponse} (h : InRange (responseOf t)) :
    WellFormed 6 (tableFields t) :=
  wellFormed_message (by decide) h.requestID (resultOf t).1.toNat_lt (resultOf_fits h)

/-! ## Reading the frame -/

section Reads

variable {rt} {frame : List UInt8} {t : ServerResponse}

theorem resultPos_eq {kind : ResultKind} {pos : Nat}
    (h : rt.tableField frame (resultOffset kind) = some (some pos)) :
    resultPos rt frame kind = .ok pos := by
  unfold resultPos
  rw [h]
  rfl

theorem statusField_eq {pos : Nat} {status : LeaseStatus}
    (h : rt.structField frame 1 pos 0 = some status.toNat) : statusField rt frame pos = .ok status := by
  unfold statusField
  rw [h]
  exact congrArg Except.ok UInt8.ofNat_toNat

theorem readGrant_eq {kind : ResultKind} {pos ttlMS : Nat} {status : LeaseStatus}
    (hfield : rt.tableField frame (resultOffset kind) = some (some pos))
    (hstatus : rt.structField frame 1 pos 0 = some status.toNat)
    (hread : rt.structField frame 8 pos 8 = some ttlMS) (requestID : Nat)
    (operation : ClientOperation) :
    readGrant rt frame kind requestID operation = .ok ⟨requestID, operation, status, ttlMS⟩ := by
  simp only [readGrant, resultPos_eq hfield, statusField_eq hstatus, hread, orRecovered, bind,
    Except.bind, pure, Except.pure]

/-- The clients read what the table says. -/
theorem readResponse_frame (hrt : Documented rt) (hrange : InRange (responseOf t)) :
    readResponse rt (rt.frame 6 (tableFields t)) = .ok (responseOf t) := by
  have hwf := wellFormed_table hrange
  have hid := hrt.scalarField hwf (List.mem_cons_self ..)
  have htag := hrt.scalarField hwf (List.mem_cons_of_mem _ (List.mem_cons_self ..))
  have hmem : (resultOf t).2 ∈ tableFields t := by simp [tableFields, message]
  have hread : readResponse rt (rt.frame 6 (tableFields t)) =
      readResult rt (rt.frame 6 (tableFields t)) (responseOf t).requestID (resultOf t).1 := by
    simp only [readResponse, hid, htag, orRecovered, bind, Except.bind, UInt8.ofNat_toNat]
  rw [hread]
  cases t with
  | acquire requestID status ttlMS | renew requestID status ttlMS =>
    obtain ⟨pos, hfield, hparts⟩ := hrt.structField hwf hmem
    exact readGrant_eq hfield (hparts [] _ _ _ rfl)
      (hparts [.scalar 1 status.toNat, .padding 7] _ _ _ rfl) _ _
  | release requestID status =>
    obtain ⟨pos, hfield, hparts⟩ := hrt.structField hwf hmem
    have hresult : resultPos rt _ .release = .ok pos := resultPos_eq hfield
    have hstatus := statusField_eq (hparts [] _ _ _ rfl)
    show readRelease rt _ requestID = _
    simp only [readRelease, hresult, hstatus, bind, Except.bind, pure, Except.pure, responseOf]
  | getTTL requestID ttlMS =>
    obtain ⟨pos, hfield, hparts⟩ := hrt.structField hwf hmem
    have hresult : resultPos rt _ .getTTL = .ok pos := resultPos_eq hfield
    have hread : rt.structField _ 8 pos 0 = some ttlMS := hparts [] _ _ _ rfl
    show readGetTTL rt _ requestID = _
    simp only [readGetTTL, hresult, hread, orRecovered, bind, Except.bind, pure, Except.pure,
      responseOf]

end Reads

/-! ## What is accepted -/

/-- What the frame of a response says of it: the TTL of a Release and the status of a GetTTL are not
sent. -/
def transmitted (r : Response) : Response where
  requestID := r.requestID
  operation := r.operation
  status := if r.operation = ClientOperation.getTTL then LeaseStatus.ok else r.status
  ttlMS := if r.operation = ClientOperation.release then 0 else r.ttlMS

theorem transmitted_eq {r : Response} (hrel : r.operation = ClientOperation.release → r.ttlMS = 0)
    (hget : r.operation = ClientOperation.getTTL → r.status = LeaseStatus.ok) :
    transmitted r = r := by
  obtain ⟨requestID, operation, status, ttlMS⟩ := r
  unfold transmitted
  congr
  · split_ifs with hop
    · exact (hget hop).symm
    · rfl
  · split_ifs with hop
    · exact (hrel hop).symm
    · rfl

/-- Within the range of operations, what is none of the first three is `GET_TTL`. -/
theorem operation_getTTL {op : ClientOperation} (hmin : ClientOperation.acquire ≤ op)
    (hmax : op ≤ ClientOperation.getTTL) (hacq : op ≠ ClientOperation.acquire)
    (hren : op ≠ ClientOperation.renew) (hrel : op ≠ ClientOperation.release) :
    op = ClientOperation.getTTL := by
  have h₁ : op.toNat ≠ 1 := fun h => hacq (UInt8.toNat_inj.mp h)
  have h₂ : op.toNat ≠ 2 := fun h => hren (UInt8.toNat_inj.mp h)
  have h₃ : op.toNat ≠ 3 := fun h => hrel (UInt8.toNat_inj.mp h)
  have hmin' : 1 ≤ op.toNat := UInt8.le_iff_toNat_le.mp hmin
  have hmax' : op.toNat ≤ 4 := UInt8.le_iff_toNat_le.mp hmax
  refine UInt8.toNat_inj.mp ?_
  show op.toNat = 4
  omega

theorem responseOf_eq {r : Response} {t : ServerResponse} (h : Server.encodeResponse r = .ok t) :
    responseOf t = transmitted r := by
  obtain ⟨-, hmin, hmax⟩ := encodable_iff.mp ⟨t, h⟩
  unfold Server.encodeResponse at h
  split_ifs at h with h₁ h₂ hacq hren hrel
  · cases h
    simp only [responseOf, transmitted, hacq]
    rfl
  · cases h
    simp only [responseOf, transmitted, hren]
    rfl
  · cases h
    simp only [responseOf, transmitted, hrel]
    rfl
  · cases h
    simp only [responseOf, transmitted, operation_getTTL hmin hmax hacq hren hrel]
    rfl

section Accepts

open Server.System (bind_eq_ok)

variable {rt} {frame : List UInt8} {r : Response}

theorem orRecovered_ok {α : Type} {x : Option α} {a : α} (h : orRecovered x = .ok a) :
    x = some a := by
  cases x with
  | none => cases h
  | some b =>
    cases h
    rfl

/-- The server could have sent this: its numbers are `uint64`, its operation is one, and it has
nothing that is not sent. -/
structure Sendable (r : Response) : Prop where
  range : InRange r
  min : ClientOperation.acquire ≤ r.operation
  max : r.operation ≤ ClientOperation.getTTL
  transmitted : transmitted r = r

theorem sendable_of_operation (hrange : InRange r) (htransmitted : Wire.transmitted r = r)
    (hop : decide (ClientOperation.acquire ≤ r.operation ∧ r.operation ≤ ClientOperation.getTTL) =
      true) : Sendable r :=
  ⟨hrange, (of_decide_eq_true hop).1, (of_decide_eq_true hop).2, htransmitted⟩

theorem readGrant_sendable {kind : ResultKind} {requestID : Nat} {operation : ClientOperation}
    (hrt : Documented rt) (hid : requestID < 2 ^ 64)
    (hop : operation = ClientOperation.acquire ∨ operation = ClientOperation.renew)
    (h : readGrant rt frame kind requestID operation = .ok r) : Sendable r := by
  obtain ⟨pos, -, h⟩ := bind_eq_ok h
  obtain ⟨status, -, h⟩ := bind_eq_ok h
  obtain ⟨ttlMS, httl, h⟩ := bind_eq_ok h
  cases h
  have hlt : ttlMS < 2 ^ 64 := hrt.getScalar_lt (orRecovered_ok httl)
  rcases hop with rfl | rfl
  · exact sendable_of_operation ⟨hid, hlt⟩ rfl rfl
  · exact sendable_of_operation ⟨hid, hlt⟩ rfl rfl

theorem readResponse_sendable (hrt : Documented rt) (h : readResponse rt frame = .ok r) : Sendable r := by
  obtain ⟨requestID, hid, h⟩ := bind_eq_ok h
  obtain ⟨result, -, h⟩ := bind_eq_ok h
  have hlt : requestID < 2 ^ 64 := hrt.scalarField_lt (by decide) (orRecovered_ok hid)
  unfold readResult at h
  split_ifs at h
  · exact readGrant_sendable hrt hlt (Or.inl rfl) h
  · exact readGrant_sendable hrt hlt (Or.inr rfl) h
  · obtain ⟨pos, -, h⟩ := bind_eq_ok h
    obtain ⟨status, -, h⟩ := bind_eq_ok h
    cases h
    exact sendable_of_operation ⟨hlt, Nat.two_pow_pos 64⟩ rfl rfl
  · obtain ⟨pos, -, h⟩ := bind_eq_ok h
    obtain ⟨ttlMS, httl, h⟩ := bind_eq_ok h
    cases h
    exact sendable_of_operation ⟨hlt, hrt.getScalar_lt (orRecovered_ok httl)⟩ rfl rfl

/-- **Whatever bytes are accepted**, the server could have sent the response. -/
theorem decodeResponse_sendable (hrt : Documented rt) (h : decodeResponse rt frame = .ok r) :
    Sendable r ∧ Encodable r := by
  obtain ⟨r', hread, h⟩ := bind_eq_ok h
  split_ifs at h with hvalid
  cases h
  have hsend := readResponse_sendable hrt hread
  exact ⟨hsend, encodable_iff.mpr ⟨(of_decide_eq_true hvalid).2, hsend.min, hsend.max⟩⟩

end Accepts

/-! ## One frame for every response -/

theorem inRange_responseOf {r : Response} {t : ServerResponse} (hrange : InRange r)
    (h : Server.encodeResponse r = .ok t) : InRange (responseOf t) := by
  rw [responseOf_eq h]
  refine ⟨hrange.requestID, ?_⟩
  show (if r.operation = ClientOperation.release then 0 else r.ttlMS) < 2 ^ 64
  split_ifs
  · decide
  · exact hrange.ttlMS

theorem validStatus_transmitted {r : Response} (h : r.status ≤ LeaseStatus.keyLimitReached) :
    validStatus (transmitted r).status = true := by
  refine decide_eq_true ⟨UInt8.zero_le, ?_⟩
  show (if r.operation = ClientOperation.getTTL then LeaseStatus.ok else r.status) ≤ _
  split_ifs
  · decide
  · exact h

section Frame

variable {rt}

theorem decodeResponse_of_read {frame : List UInt8} {r : Response}
    (hread : readResponse rt frame = .ok r) (hvalid : validStatus r.status = true) :
    decodeResponse rt frame = .ok r := by
  unfold decodeResponse
  rw [hread]
  show (if validStatus r.status then _ else _) = _
  rw [if_pos hvalid]
  rfl

/-- The frame of a response that `encodeResponse` accepts. -/
theorem encodeResponse_frame (hrt : Documented rt) {r : Response} (hrange : InRange r)
    (henc : Encodable r) : ∃ frame, Admissible frame ∧
      decodeResponse rt frame = .ok (transmitted r) ∧
      ∀ b, ∃ b', encodeResponse rt b r = some (.ok (b', frame)) := by
  obtain ⟨t, ht⟩ := henc
  have hrange' := inRange_responseOf hrange ht
  have hread := readResponse_frame hrt hrange'
  rw [responseOf_eq ht] at hread
  refine ⟨rt.frame 6 (tableFields t),
    message_admissible hrt (by decide) (wellFormed_table hrange') (resultOf_fits hrange'), ?_,
    fun b => ?_⟩
  · exact decodeResponse_of_read hread (validStatus_transmitted (encodable_iff.mp ⟨t, ht⟩).1)
  · obtain ⟨b', hbuild, hframe⟩ := hrt.builds (wellFormed_table hrange') _ (Or.inr ⟨b, rfl⟩)
    refine ⟨b', ?_⟩
    rw [encodeResponse_eq, ht]
    dsimp only
    rw [hbuild, Option.bind_some, hframe]
    rfl

/-- Whatever FlatBuffers package is used, if it is as documented: `encodeResponse` rejects exactly the
responses whose status or operation is outside the protocol. Every other one has one frame, whatever
the builder was used for before; `ReadFrame` accepts it and `DecodeResponse` returns what is sent of
the response, which is the response itself unless it is a Release with a TTL or a GetTTL with another
status than OK. Conversely whatever bytes `DecodeResponse` accepts, it returns a response that has a
frame and comes back from it unchanged. -/
theorem response_frame (rt : Runtime) (hrt : Documented rt) :
    (∀ b r, (∃ err, encodeResponse rt b r = some (.error err)) ↔
      ¬ (r.status ≤ LeaseStatus.keyLimitReached ∧ ClientOperation.acquire ≤ r.operation ∧
        r.operation ≤ ClientOperation.getTTL)) ∧
    (∀ r, InRange r → Encodable r → ∃ frame, Admissible frame ∧
      decodeResponse rt frame = .ok (transmitted r) ∧
      ((r.operation = ClientOperation.release → r.ttlMS = 0) →
        (r.operation = ClientOperation.getTTL → r.status = LeaseStatus.ok) →
        decodeResponse rt frame = .ok r) ∧
      ∀ b, ∃ b', encodeResponse rt b r = some (.ok (b', frame))) ∧
    ∀ bytes r, decodeResponse rt bytes = .ok r → ∃ frame, Admissible frame ∧
      decodeResponse rt frame = .ok r ∧
      ∀ b, ∃ b', encodeResponse rt b r = some (.ok (b', frame)) := by
  refine ⟨fun b r => ?_, fun r hrange henc => ?_, fun bytes r h => ?_⟩
  · rw [← encodable_iff, encodeResponse_eq]
    cases ht : Server.encodeResponse r with
    | error err =>
      refine ⟨fun _ => ?_, fun _ => ⟨err, rfl⟩⟩
      rintro ⟨t, ht'⟩
      cases ht.symm.trans ht'
    | ok t =>
      refine ⟨?_, fun hnot => absurd ⟨t, ht⟩ hnot⟩
      rintro ⟨err, herr⟩
      obtain ⟨b', -, h⟩ := Option.bind_eq_some_iff.mp herr
      obtain ⟨frame, -, h⟩ := Option.bind_eq_some_iff.mp h
      cases h
  · obtain ⟨frame, hadm, hdecode, hencode⟩ := encodeResponse_frame hrt hrange henc
    exact ⟨frame, hadm, hdecode,
      fun hrel hget => hdecode.trans (congrArg _ (transmitted_eq hrel hget)), hencode⟩
  · obtain ⟨hsend, henc⟩ := decodeResponse_sendable hrt h
    have hframe := encodeResponse_frame hrt hsend.range henc
    rwa [hsend.transmitted] at hframe

/-- A Release that comes with a TTL, which is not sent. -/
def staleRelease : Response := ⟨3, ClientOperation.release, LeaseStatus.stale, 40⟩

theorem response_frame_staleRelease :
    InRange staleRelease ∧ Encodable staleRelease ∧
      ∃ frame, Admissible frame ∧
        decodeResponse plainRuntime frame = .ok { staleRelease with ttlMS := 0 } ∧
        ∀ b, ∃ b', encodeResponse plainRuntime b staleRelease = some (.ok (b', frame)) := by
  have hrange : InRange staleRelease := ⟨by decide, by decide⟩
  have henc : Encodable staleRelease := ⟨_, rfl⟩
  obtain ⟨frame, hadm, hdecode, -, hencode⟩ :=
    (response_frame plainRuntime documented_plainRuntime).2.1 staleRelease hrange henc
  exact ⟨hrange, henc, frame, hadm, hdecode, hencode⟩

end Frame

end RedLease.Wire
