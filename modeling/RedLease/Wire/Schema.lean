import RedLease.Lib.FlatBuffers.Runtime
import RedLease.Transport.Reader

/-!
# The generated code

`fbs/redlease/v1`: the functions that build the tables `ClientRequest` and `ServerResponse` and
their structs, over the FlatBuffers package that they call. Both tables have a request ID, a tag that
says which payload there is, and at most one payload.

* `message`: the fields of such a table.
* **`message_admissible`**: it is a frame for `ReadFrame`.
-/

namespace RedLease.Wire

open Lib.FlatBuffers Transport

variable (rt : Runtime)

/-! ## Structs -/

/-- `CreateAcquireRequest`. -/
def createAcquireRequest (b : rt.Builder) (key clientID bootID leaseSeq requestedTTLMS : Nat) :
    Option (rt.Builder × Nat) :=
  rt.createStruct b 8 32
    [.scalar 8 key, .scalar 4 clientID, .scalar 4 bootID, .scalar 8 leaseSeq,
      .scalar 8 requestedTTLMS]

/-- `CreateRenewRequest`. -/
def createRenewRequest (b : rt.Builder) (key clientID bootID leaseSeq requestedTTLMS : Nat) :
    Option (rt.Builder × Nat) :=
  rt.createStruct b 8 32
    [.scalar 8 key, .scalar 4 clientID, .scalar 4 bootID, .scalar 8 leaseSeq,
      .scalar 8 requestedTTLMS]

/-- `CreateReleaseRequest`. -/
def createReleaseRequest (b : rt.Builder) (key clientID bootID leaseSeq : Nat) :
    Option (rt.Builder × Nat) :=
  rt.createStruct b 8 24 [.scalar 8 key, .scalar 4 clientID, .scalar 4 bootID, .scalar 8 leaseSeq]

/-- `CreateAcquireResponse`. -/
def createAcquireResponse (b : rt.Builder) (status : LeaseStatus) (ttlMS : Nat) :
    Option (rt.Builder × Nat) :=
  rt.createStruct b 8 16 [.scalar 1 status.toNat, .padding 7, .scalar 8 ttlMS]

/-- `CreateRenewResponse`. -/
def createRenewResponse (b : rt.Builder) (status : LeaseStatus) (ttlMS : Nat) :
    Option (rt.Builder × Nat) :=
  rt.createStruct b 8 16 [.scalar 1 status.toNat, .padding 7, .scalar 8 ttlMS]

/-- `CreateReleaseResponse`. -/
def createReleaseResponse (b : rt.Builder) (status : LeaseStatus) : Option (rt.Builder × Nat) :=
  rt.createStruct b 1 1 [.scalar 1 status.toNat]

/-- `CreateGetTTLResponse`. -/
def createGetTTLResponse (b : rt.Builder) (configuredMaxTTLMS : Nat) : Option (rt.Builder × Nat) :=
  rt.createStruct b 8 8 [.scalar 8 configuredMaxTTLMS]

/-! ## Tables -/

/-- `ClientRequestStart`. -/
def clientRequestStart (b : rt.Builder) : Option rt.Builder := rt.startObject b 5

/-- `ClientRequestAddRequestId`. -/
def clientRequestAddRequestID (b : rt.Builder) (requestID : Nat) : Option rt.Builder :=
  rt.prependScalarSlot b 8 0 requestID 0

/-- `ClientRequestAddOperation`. -/
def clientRequestAddOperation (b : rt.Builder) (operation : ClientOperation) : Option rt.Builder :=
  rt.prependScalarSlot b 1 1 operation.toNat 0

/-- `ClientRequestAddAcquire`. -/
def clientRequestAddAcquire (b : rt.Builder) (acquire : Nat) : Option rt.Builder :=
  rt.prependStructSlot b 2 acquire 0

/-- `ClientRequestAddRenew`. -/
def clientRequestAddRenew (b : rt.Builder) (renew : Nat) : Option rt.Builder :=
  rt.prependStructSlot b 3 renew 0

/-- `ClientRequestAddRelease`. -/
def clientRequestAddRelease (b : rt.Builder) (release : Nat) : Option rt.Builder :=
  rt.prependStructSlot b 4 release 0

/-- `ServerResponseStart`. -/
def serverResponseStart (b : rt.Builder) : Option rt.Builder := rt.startObject b 6

/-- `ServerResponseAddRequestId`. -/
def serverResponseAddRequestID (b : rt.Builder) (requestID : Nat) : Option rt.Builder :=
  rt.prependScalarSlot b 8 0 requestID 0

/-- `redleasev1.ServerResult`. -/
abbrev ServerResult := UInt8

namespace ServerResult

def acquire : ServerResult := 1
def renew : ServerResult := 2
def release : ServerResult := 3
def getTTL : ServerResult := 4

end ServerResult

/-- `ServerResponseAddResult`. -/
def serverResponseAddResult (b : rt.Builder) (result : ServerResult) : Option rt.Builder :=
  rt.prependScalarSlot b 1 1 result.toNat 0

/-- `ServerResponseAddAcquire`. -/
def serverResponseAddAcquire (b : rt.Builder) (acquire : Nat) : Option rt.Builder :=
  rt.prependStructSlot b 2 acquire 0

/-- `ServerResponseAddRenew`. -/
def serverResponseAddRenew (b : rt.Builder) (renew : Nat) : Option rt.Builder :=
  rt.prependStructSlot b 3 renew 0

/-- `ServerResponseAddRelease`. -/
def serverResponseAddRelease (b : rt.Builder) (release : Nat) : Option rt.Builder :=
  rt.prependStructSlot b 4 release 0

/-- `ServerResponseAddGetTtl`. -/
def serverResponseAddGetTTL (b : rt.Builder) (getTTL : Nat) : Option rt.Builder :=
  rt.prependStructSlot b 5 getTTL 0

/-! ## What the tables have in common -/

/-- The fields of a table with a request ID, a tag and perhaps a payload. -/
def message (requestID tag : Nat) (payload : Option Field) : List Field :=
  .scalar 0 8 requestID 0 :: .scalar 1 1 tag 0 :: payload.toList

/-- A payload of a table of `n` fields. -/
structure Fits (n : Nat) (f : Field) : Prop where
  wf : f.Wf
  tagged : 2 ≤ f.slot
  slot : f.slot < n
  small : f.room ≤ 40

section Message

variable {rt} {n requestID tag : Nat} {payload : Option Field}

theorem room_message_le (requestID tag : Nat) (hfits : ∀ f ∈ payload, Fits n f) :
    room (message requestID tag payload) ≤ 58 := by
  cases payload with
  | none => exact (by decide : 18 ≤ 58)
  | some f => exact Nat.add_le_add_left (Nat.add_le_add_left (hfits f rfl).small 2) 16

theorem wellFormed_message (hn : 2 ≤ n ∧ n ≤ 6) (hid : requestID < 2 ^ 64) (htag : tag < 2 ^ 8)
    (hfits : ∀ f ∈ payload, Fits n f) : WellFormed n (message requestID tag payload) where
  wf := List.forall_mem_cons.mpr ⟨⟨Or.inr (Or.inr (Or.inr rfl)), hid⟩,
    List.forall_mem_cons.mpr ⟨⟨Or.inl rfl, htag⟩, fun f hf => (hfits f (Option.mem_toList.mp hf)).wf⟩⟩
  slot := List.forall_mem_cons.mpr ⟨Nat.zero_lt_of_lt hn.1,
    List.forall_mem_cons.mpr ⟨hn.1, fun f hf => (hfits f (Option.mem_toList.mp hf)).slot⟩⟩
  nodup := by
    cases payload with
    | none => exact (by decide : [0, 1].Nodup)
    | some f =>
      have htagged := (hfits f rfl).tagged
      have hne : 0 ≠ f.slot ∧ 1 ≠ f.slot := by omega
      show [0, 1, f.slot].Nodup
      simp [hne]
  small := by
    have := room_message_le requestID tag hfits
    omega

/-- The size in front of a frame. -/
theorem uint32_bytesLE {x : Nat} (hx : x < 2 ^ 32) (rest : List UInt8) :
    uint32 (bytesLE 4 x ++ rest) = x := by
  simp only [bytesLE, List.cons_append, uint32, Server.littleEndian, UInt8.toNat_ofNat']
  omega

/-- **A table is a frame for `ReadFrame`.** -/
theorem message_admissible (hrt : Documented rt) (hn : n ≤ 6)
    (hwf : WellFormed n (message requestID tag payload)) (hfits : ∀ f ∈ payload, Fits n f) :
    Admissible (rt.frame n (message requestID tag payload)) := by
  have hroom := room_message_le requestID tag hfits
  obtain ⟨rest, hbytes, hmin⟩ := hrt.sizePrefix hwf
  have hle := hrt.length_le hwf
  have hlen : (rt.frame n (message requestID tag payload)).length = 4 + rest.length := by
    rw [hbytes, List.length_append]
    rfl
  have hsize : uint32 (rt.frame n (message requestID tag payload)) = rest.length := by
    rw [hbytes, uint32_bytesLE (by omega)]
  exact ⟨by omega, by omega, by omega⟩

end Message

end RedLease.Wire
