/-!
# Wire-level values

The scalars that server and clients exchange: `fbs/redlease/v1` (operation and status codes),
`internal/protocol` (`Response`, `MaxTTLMS`) and the lease identity. Codes are bytes, as in the
generated Go types: a decoded byte need not be one of the named values. Identifiers and keys are
only compared, and a TTL only enters a minimum with a bound of at most 5000, so the `uint32` and
`uint64` fields are natural numbers.

Times are nanoseconds on the monotonic clock of one process (`time.Now()`), and the zero value of
`time.Time`, which lies before every clock reading, is `0`.
-/

namespace RedLease

/-- A reading of one process's monotonic clock, in nanoseconds. -/
abbrev Time := Nat

/-- `time.Millisecond`. -/
def millisecond : Nat := 1000000

/-- `protocol.MaxTTLMS`. -/
def maxTTLMS : Nat := 5000

/-- `safetyMarginMS` of both clients; the server's `safetyMargin` is the same duration. -/
def safetyMarginMS : Nat := 100

/-- `redleasev1.ClientOperation`. -/
abbrev ClientOperation := UInt8

namespace ClientOperation

def none : ClientOperation := 0
def acquire : ClientOperation := 1
def renew : ClientOperation := 2
def release : ClientOperation := 3
def getTTL : ClientOperation := 4

end ClientOperation

/-- `redleasev1.LeaseStatus`. -/
abbrev LeaseStatus := UInt8

namespace LeaseStatus

def ok : LeaseStatus := 0
def alreadyOwned : LeaseStatus := 1
def busy : LeaseStatus := 2
def stale : LeaseStatus := 3
def notReady : LeaseStatus := 4
def keyLimitReached : LeaseStatus := 5

end LeaseStatus

/-- `protocol.Response`. -/
structure Response where
  requestID : Nat
  operation : ClientOperation
  status : LeaseStatus
  ttlMS : Nat
  deriving DecidableEq, Repr

/-- `leaseID`: the client node, its process incarnation, and the number of the Acquire call. -/
structure LeaseID where
  clientID : Nat
  bootID : Nat
  leaseSeq : Nat
  deriving DecidableEq, Repr

/-- `operationKind`. -/
inductive OperationKind where
  | acquire
  | renew
  | release
  deriving DecidableEq, Repr

/-- `server.operation`: one decoded lease request and the connection session that sent it. -/
structure Operation where
  requestID : Nat
  kind : OperationKind
  key : Nat
  leaseID : LeaseID
  requestedTTLMS : Nat
  session : Nat
  deriving DecidableEq, Repr

/-- `acquireResponse`. -/
def acquireResponse (requestID : Nat) (status : LeaseStatus) (ttlMS : Nat) : Response :=
  ⟨requestID, ClientOperation.acquire, status, ttlMS⟩

/-- `renewResponse`. -/
def renewResponse (requestID : Nat) (status : LeaseStatus) (ttlMS : Nat) : Response :=
  ⟨requestID, ClientOperation.renew, status, ttlMS⟩

/-- `releaseResponse`. -/
def releaseResponse (requestID : Nat) (status : LeaseStatus) : Response :=
  ⟨requestID, ClientOperation.release, status, 0⟩

/-- `statusResponse`. The default case of the source's switch is unreachable: `kind` has only
these three values. -/
def statusResponse (op : Operation) (status : LeaseStatus) : Response :=
  match op.kind with
  | .acquire => acquireResponse op.requestID status 0
  | .renew => renewResponse op.requestID status 0
  | .release => releaseResponse op.requestID status

end RedLease
