import Mathlib.Algebra.Group.Nat.Defs
import Mathlib.Logic.Basic
import Mathlib.Tactic.SplitIfs
import RedLease.Lib.FlatBuffers.Table
import RedLease.Protocol

/-!
# Frames, requests and responses

The server's side of the wire: `FrameReader.ReadFrame` on the bytes that have arrived, the decoding
in `processRequest`, and `encodeResponse`. The accessors that FlatBuffers generates are a parameter:
on a frame each of them returns a value or panics, and nothing else is known about them.
`generatedAccessors` are the accessors of the generated code, over the package that they call. The
built frame of a response is its content, the fields of `ServerResponse`.
-/

namespace RedLease.Server

/-! ## Frames -/

/-- `MaxFrameBytes`. -/
def maxFrameBytes : Nat := 1024

/-- `flatbuffers.SizeUint32`, which is also `flatbuffers.SizeUOffsetT`. -/
def sizeUint32 : Nat := 4

/-- `binary.LittleEndian.Uint32`. -/
def littleEndian (b₀ b₁ b₂ b₃ : UInt8) : Nat :=
  b₀.toNat + 2 ^ 8 * b₁.toNat + 2 ^ 16 * b₂.toNat + 2 ^ 24 * b₃.toNat

/-- What `ReadFrame` finds at the start of the bytes that have arrived. -/
inductive Frame where
  | incomplete
  | invalid (payloadSize : Nat)
  | complete (frame rest : List UInt8)

/-- `ReadFrame`. -/
def readFrame : List UInt8 → Frame
  | b₀ :: b₁ :: b₂ :: b₃ :: rest =>
    let payloadSize := littleEndian b₀ b₁ b₂ b₃
    if payloadSize < sizeUint32 ∨ maxFrameBytes - sizeUint32 < payloadSize then .invalid payloadSize
    else if rest.length < payloadSize then .incomplete
    else .complete (b₀ :: b₁ :: b₂ :: b₃ :: rest.take payloadSize) (rest.drop payloadSize)
  | _ => .incomplete

/-! ## Requests -/

/-- The generated accessors of `ClientRequest` and of its payloads; no value is a panic. A payload
accessor says whether the payload is there. -/
structure Accessors where
  operation : List UInt8 → Option ClientOperation
  requestID : List UInt8 → Option Nat
  payload : OperationKind → List UInt8 → Option Bool
  key : OperationKind → List UInt8 → Option Nat
  clientID : OperationKind → List UInt8 → Option Nat
  bootID : OperationKind → List UInt8 → Option Nat
  leaseSeq : OperationKind → List UInt8 → Option Nat
  requestedTTLMS : OperationKind → List UInt8 → Option Nat

/-- The payloads of `ClientRequest`: `Acquire`, `Renew` and `Release` look at these vtable offsets. -/
def payloadOffset : OperationKind → Nat
  | .acquire => 8
  | .renew => 10
  | .release => 12

/-- A field of a payload. -/
def payloadField (rd : Lib.FlatBuffers.Reader) (size offset : Nat) (kind : OperationKind)
    (frame : List UInt8) : Option Nat :=
  (rd.tableField frame (payloadOffset kind)).bind fun
    | some pos => rd.structField frame size pos offset
    | none => none

/-- The accessors in `fbs/redlease/v1`; a `ReleaseRequest` has no TTL. -/
def generatedAccessors (rd : Lib.FlatBuffers.Reader) : Accessors where
  operation frame := (rd.scalarField frame 1 6 0).map UInt8.ofNat
  requestID frame := rd.scalarField frame 8 4 0
  payload kind frame := (rd.tableField frame (payloadOffset kind)).map Option.isSome
  key := payloadField rd 8 0
  clientID := payloadField rd 4 8
  bootID := payloadField rd 4 12
  leaseSeq := payloadField rd 8 16
  requestedTTLMS
    | .acquire => payloadField rd 8 24 .acquire
    | .renew => payloadField rd 8 24 .renew
    | .release => fun _ => none

/-- The accessors over the Go package. -/
def goAccessors : Accessors := generatedAccessors Lib.FlatBuffers.goReader

/-- The ways a frame can be malformed. -/
inductive Malformed where
  | payloadSize (n : Nat)
  | missingPayload (kind : OperationKind)
  | unsupportedOperation (op : ClientOperation)
  | recovered
  deriving DecidableEq

/-- What `processRequest` finds in a frame. -/
inductive Request where
  | lease (op : Operation)
  | getTTL (requestID : Nat)
  deriving DecidableEq

/-- The value of an accessor; a panic is recovered as a malformed frame. -/
def recover {α : Type} : Option α → Except Malformed α
  | some a => .ok a
  | none => .error .recovered

/-- One lease request; only Acquire and Renew carry a TTL. -/
def decodeLease (fb : Accessors) (frame : List UInt8) (session : Nat) (kind : OperationKind) :
    Except Malformed Request := do
  let present ← recover (fb.payload kind frame)
  if present then
    let requestID ← recover (fb.requestID frame)
    let key ← recover (fb.key kind frame)
    let clientID ← recover (fb.clientID kind frame)
    let bootID ← recover (fb.bootID kind frame)
    let leaseSeq ← recover (fb.leaseSeq kind frame)
    let requestedTTLMS ←
      if kind = .release then .ok 0 else recover (fb.requestedTTLMS kind frame)
    return .lease ⟨requestID, kind, key, ⟨clientID, bootID, leaseSeq⟩, requestedTTLMS, session⟩
  else .error (.missingPayload kind)

/-- The decoding in `processRequest`. -/
def decodeRequest (fb : Accessors) (frame : List UInt8) (session : Nat) :
    Except Malformed Request := do
  let op ← recover (fb.operation frame)
  if op = ClientOperation.acquire then decodeLease fb frame session .acquire
  else if op = ClientOperation.renew then decodeLease fb frame session .renew
  else if op = ClientOperation.release then decodeLease fb frame session .release
  else if op = ClientOperation.getTTL then return .getTTL (← recover (fb.requestID frame))
  else .error (.unsupportedOperation op)

/-! ## Responses -/

/-- The table `ServerResponse`: the result and its payload. -/
inductive ServerResponse where
  | acquire (requestID : Nat) (status : LeaseStatus) (ttlMS : Nat)
  | renew (requestID : Nat) (status : LeaseStatus) (ttlMS : Nat)
  | release (requestID : Nat) (status : LeaseStatus)
  | getTTL (requestID : Nat) (configuredMaxTTLMS : Nat)
  deriving DecidableEq, Repr

/-- The responses that cannot be encoded. -/
inductive EncodeError where
  | unsupportedStatus (status : LeaseStatus)
  | unsupportedOperation (op : ClientOperation)
  deriving DecidableEq, Repr

/-- `encodeResponse`. -/
def encodeResponse (r : Response) : Except EncodeError ServerResponse :=
  if LeaseStatus.keyLimitReached < r.status then .error (.unsupportedStatus r.status)
  else if r.operation < ClientOperation.acquire ∨ ClientOperation.getTTL < r.operation then
    .error (.unsupportedOperation r.operation)
  else if r.operation = ClientOperation.acquire then .ok (.acquire r.requestID r.status r.ttlMS)
  else if r.operation = ClientOperation.renew then .ok (.renew r.requestID r.status r.ttlMS)
  else if r.operation = ClientOperation.release then .ok (.release r.requestID r.status)
  else .ok (.getTTL r.requestID r.ttlMS)

/-- `encodeResponse` accepts the response. -/
def Encodable (r : Response) : Prop := ∃ frame, encodeResponse r = .ok frame

theorem encodable_iff {r : Response} :
    Encodable r ↔ r.status ≤ LeaseStatus.keyLimitReached ∧
      ClientOperation.acquire ≤ r.operation ∧ r.operation ≤ ClientOperation.getTTL := by
  unfold Encodable encodeResponse
  constructor
  · rintro ⟨frame, h⟩
    split_ifs at h with h1 h2
    all_goals
      rw [not_or, UInt8.not_lt, UInt8.not_lt] at h2
      exact ⟨UInt8.not_lt.mp h1, h2⟩
  · rintro ⟨h1, h2, h3⟩
    rw [if_neg (UInt8.not_lt.mpr h1),
      if_neg (not_or.mpr ⟨UInt8.not_lt.mpr h2, UInt8.not_lt.mpr h3⟩)]
    split_ifs <;> exact ⟨_, rfl⟩

end RedLease.Server
