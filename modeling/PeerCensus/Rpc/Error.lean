import PeerCensus.Snappy.Collector
import PeerCensus.Stream.Varint
import PeerCensus.Wire.Ssz

/-!
# Errors of a call

What can end a call over a stream. None of them concerns anything but the call itself. Faults of the
stream that mean that the other side has gone are one error, `closed`, whatever their kind.

Results:
* `ofFault_eq_closed_iff`: exactly the faults that mean that the other side has gone become
  `closed`.
-/

namespace PeerCensus

/-- The bounds of the length of a payload, both included. -/
structure SizeBounds where
  min : Nat
  max : Nat
  deriving DecidableEq, Repr

namespace SizeBounds

/-- The bounds that hold for one length only. -/
def exact (length : Nat) : SizeBounds := ⟨length, length⟩

/-- Whether a length is within the bounds. -/
def contains (b : SizeBounds) (length : Nat) : Bool :=
  b.min ≤ length && length ≤ b.max

end SizeBounds

/-- The code in front of every chunk of a response. -/
inductive ResultCode
  | success
  | invalidRequest
  | serverError
  deriving DecidableEq, Repr

namespace ResultCode

/-- The byte that stands for a code. -/
def toByte : ResultCode → UInt8
  | success => 0
  | invalidRequest => 1
  | serverError => 2

/-- The code a byte stands for. -/
def ofByte? (b : UInt8) : Option ResultCode :=
  if b = 0 then some success
  else if b = 1 then some invalidRequest
  else if b = 2 then some serverError
  else none

/-- The name of a code. -/
def name : ResultCode → String
  | success => "success"
  | invalidRequest => "invalid request"
  | serverError => "server error"

theorem ofByte?_toByte (c : ResultCode) : ofByte? c.toByte = some c := by
  cases c <;> rfl

end ResultCode

/-- How the other side can break the rules of framing. -/
inductive Violation
  /-- The declared length is outside of the bounds. -/
  | lengthOutOfBounds (length : Nat) (bounds : SizeBounds)
  /-- The frames of a payload are longer than its length allows. -/
  | encodedLengthExceeded (limit : Nat)
  | unknownResultCode (code : UInt8)
  | varintOverflow
  deriving DecidableEq, Repr

/-- The name of the kind of violation. -/
def Violation.kind : Violation → String
  | lengthOutOfBounds .. => "LengthOutOfBounds"
  | encodedLengthExceeded _ => "EncodedLengthExceeded"
  | unknownResultCode _ => "UnknownResultCode"
  | varintOverflow => "VarintOverflow"

/-- The text shown for a violation. -/
def Violation.message : Violation → String
  | lengthOutOfBounds length bounds =>
    "declared length " ++ toString length ++ " outside of [" ++ toString bounds.min ++ ", " ++
      toString bounds.max ++ "]"
  | encodedLengthExceeded limit => "encoded payload exceeds " ++ toString limit ++ " bytes"
  | unknownResultCode code => "unknown result code " ++ toString code.toNat
  | varintOverflow => "length prefix overflows"

/-- Why a payload could not be compressed or decompressed. -/
inductive CompressionError
  | compressing (fault : Fault)
  | invalidEncoding (reason : Snappy.FrameError)
  deriving DecidableEq

namespace CompressionError

/-- The text shown for the error. -/
def message : CompressionError → String
  | compressing fault => "compression failed: " ++ fault.text
  | invalidEncoding reason => "invalid encoding: " ++ reason.message

/-- The text of the error behind this one. -/
def source? : CompressionError → Option String
  | compressing fault => some fault.text
  | invalidEncoding _ => none

end CompressionError

/-- Why a call failed. -/
inductive RpcError
  /-- The call took too long. -/
  | timeout
  /-- The other side closed the stream too early. -/
  | closed
  | violation (violation : Violation)
  /-- The other side answered with a code other than success. -/
  | errorResponse (code : ResultCode) (message : String)
  | codec (error : CodecError)
  | compression (error : CompressionError)
  | stream (fault : Fault)
  deriving DecidableEq

namespace RpcError

/-- The name of the kind of error, by which errors are counted. -/
def kind : RpcError → String
  | timeout => "Timeout"
  | closed => "TransportClosed"
  | violation v => "ProtocolViolation." ++ v.kind
  | errorResponse .. => "ErrorResponse"
  | codec _ => "Codec"
  | compression (.compressing _) => "Compression.Compress"
  | compression (.invalidEncoding _) => "Compression.InvalidEncoding"
  | stream _ => "Io"

/-- The text shown for the error. -/
def message : RpcError → String
  | timeout => "request timed out"
  | closed => "stream closed by remote"
  | violation v => "protocol violation: " ++ v.message
  | errorResponse code text => "remote returned " ++ code.name ++ ": " ++ text
  | codec e => "codec error: " ++ e.message
  | compression e => "compression error: " ++ e.message
  | stream fault => "stream error: " ++ fault.text

/-- The text of the error behind this one. -/
def source? : RpcError → Option String
  | codec e => some e.message
  | compression e => some e.message
  | stream fault => some fault.text
  | _ => none

/-- The error for a fault of the stream. -/
def ofFault (fault : Fault) : RpcError :=
  match fault.kind with
  | .unexpectedEnd | .reset | .aborted | .brokenPipe => closed
  | .timedOut => timeout
  | _ => stream fault

/-- The error for a length that could not be read. -/
def ofVarint : Varint.ReadError → RpcError
  | .stream fault => ofFault fault
  | .closed | .truncated => closed
  | .overflow => violation .varintOverflow

theorem ofFault_eq_closed_iff (fault : Fault) : ofFault fault = closed ↔
    fault.kind ∈ [FaultKind.unexpectedEnd, .reset, .aborted, .brokenPipe] := by
  rw [ofFault]
  cases fault.kind <;> simp

end RpcError

end PeerCensus
