import PeerCensus.Bytes

/-!
# Fixed-size SSZ

A value is written as its fields in order, without separators, integers least significant byte
first. A payload is read only when it has exactly the size of its type.

Results:
* `decode_of_length_ne`: any other length is refused, naming both lengths.
-/

namespace PeerCensus

/-- Why a payload cannot be read as a value of a type. -/
inductive CodecError
  /-- The payload, or what is left of it, has `actual` bytes where `expected` are needed. -/
  | malformedPayload (expected actual : Nat)
  deriving DecidableEq, Repr

namespace CodecError

/-- The text shown for the error. -/
def message : CodecError → String
  | malformedPayload expected actual =>
    "malformed payload: expected " ++ toString expected ++ " bytes, got " ++ toString actual

end CodecError

namespace Ssz

/-- Reads a value off the front of a payload and leaves the rest. -/
abbrev Reader (α : Type) := StateT Bytes (Except CodecError) α

/-- Takes the next `n` bytes. -/
def take (n : Nat) : Reader (FixedBytes n) := fun bytes =>
  if h : n ≤ bytes.length then
    .ok (⟨bytes.take n, by simp [h]⟩, bytes.drop n)
  else .error (.malformedPayload n bytes.length)

end Ssz

/-- A type whose values all have the same encoded size. -/
class Ssz (α : Type) where
  /-- The encoded size in bytes. -/
  size : Nat
  /-- The encoding of a value. -/
  encode : α → Bytes
  /-- Reads a value off the front of a payload. -/
  read : Ssz.Reader α

namespace Ssz

/-- The value that `bytes` encode; they must be exactly as many as the type needs. Model of
`from_ssz`. -/
def decode (α : Type) [Ssz α] (bytes : Bytes) : Except CodecError α :=
  if bytes.length = size α then (read.run bytes).map (·.1)
  else .error (.malformedPayload (size α) bytes.length)

/-- Any number of bytes is its own encoding. -/
instance (n : Nat) : Ssz (FixedBytes n) where
  size := n
  encode := FixedBytes.toList
  read := take n

/-- A 64-bit integer is eight bytes, least significant first. -/
instance : Ssz UInt64 where
  size := 8
  encode value := Bytes.ofNatLE 8 value.toNat
  read := do
    let bytes ← take 8
    return (Bytes.toNatLE bytes.toList).toUInt64

theorem decode_of_length_ne [Ssz α] {bytes : Bytes} (h : bytes.length ≠ size α) :
    decode α bytes = .error (.malformedPayload (size α) bytes.length) := by
  simp [decode, h]

end Ssz

end PeerCensus
