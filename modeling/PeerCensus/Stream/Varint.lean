import PeerCensus.Stream.Source
import PeerCensus.Wire.Varint

/-!
# Varints on a stream

A varint is read one byte at a time, so that nothing after it is taken.
-/

namespace PeerCensus.Varint

/-- Why no varint could be read. -/
inductive ReadError
  /-- The stream fails. -/
  | stream (fault : PeerCensus.Fault)
  /-- The stream is closed before the first byte. -/
  | closed
  /-- The stream is closed inside the varint. -/
  | truncated
  /-- The number does not fit into 64 bits. -/
  | overflow
  deriving DecidableEq

namespace ReadError

/-- The text shown for the error. -/
def message : ReadError → String
  | stream fault => "IO error while reading varint: " ++ fault.text
  | closed => "stream closed before varint"
  | truncated => "varint truncated"
  | overflow => "varint overflows u64"

/-- The text of the error behind this one. -/
def source? : ReadError → Option String
  | stream fault => some fault.text
  | _ => none

/-- The error for bytes at hand that are not a varint. -/
def ofFault : Varint.Fault → ReadError
  | .truncated => truncated
  | .overflow => overflow

end ReadError

/-- Reads on from the byte at `index`; `value` is what the bytes before it stand for. -/
def readFrom (index value : Nat) : Reader ReadError Nat := do
  if index < maxLength then
    match ← Reader.mapError .stream Reader.byte? with
    | none => Reader.fail (if index = 0 then .closed else .truncated)
    | some b =>
      match advance index value b with
      | .complete value => return value
      | .more value => readFrom (index + 1) value
      | .overflow => Reader.fail .overflow
  else Reader.fail .overflow
termination_by maxLength - index

/-- Reads a varint. -/
def read : Reader ReadError Nat :=
  readFrom 0 0

end PeerCensus.Varint
