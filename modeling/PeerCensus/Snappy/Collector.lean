import PeerCensus.Snappy.Frame
import PeerCensus.Text.Hex

/-!
# Collecting frames

The chunks of a payload arrive on a stream that does not say where they end. A `Collector` says how
many bytes it wants next, takes them, and is complete as soon as its chunks hold as much data as was
declared. It looks at the headers and lengths only; `finish` decodes what was collected.

Results:
* `phase_feed_of_body`: after a body the next header is awaited.
* `size64?_bind_add`: adding up in 64 bits fails only for a total that does not fit.
-/

namespace PeerCensus.Snappy

/-- Why bytes are not the frames of a payload. -/
inductive FrameError
  | shortHeader
  | reservedChunk (kind : UInt8)
  | missingIdentifier
  | shortBody
  | badIdentifier
  | compressedTooShort
  | uncompressedTooShort
  | chunkTooLong (size : Nat)
  | tooMuchData (declared : Nat)
  /-- The block or frame decoder refuses the bytes. -/
  | undecodable
  | lengthMismatch (decoded declared : Nat)
  deriving DecidableEq, Repr

/-- The text shown for the error. -/
def FrameError.message : FrameError → String
  | shortHeader => "short chunk header"
  | reservedChunk kind => "reserved unskippable chunk type 0x" ++ Hex.encode [kind]
  | missingIdentifier => "missing stream identifier"
  | shortBody => "short chunk body"
  | badIdentifier => "bad stream identifier"
  | compressedTooShort => "compressed chunk too short"
  | uncompressedTooShort => "uncompressed chunk too short"
  | chunkTooLong size => "chunk of " ++ toString size ++ " bytes exceeds " ++ toString maxChunkData
  | tooMuchData declared => "payload exceeds declared length " ++ toString declared
  | undecodable => "snappy:"
  | lengthMismatch decoded declared =>
    "decoded " ++ toString decoded ++ " bytes, expected " ++ toString declared

/-- What a collector waits for. -/
inductive Phase
  /-- The header of a chunk. -/
  | header
  /-- The body of a chunk. -/
  | body (kind : UInt8) (length : Nat)
  deriving DecidableEq, Repr

/-- The frames of a payload as far as they have arrived. -/
structure Collector where
  /-- The declared length of the payload. -/
  declared : Nat
  phase : Phase
  /-- The headers and bodies taken so far, the last one first. -/
  parts : List Bytes
  /-- How much data the chunks hold so far. -/
  decoded : Nat
  deriving DecidableEq

namespace Collector

/-- A collector for a payload of `declared` bytes. -/
def new (declared : Nat) : Collector := ⟨declared, .header, [], 0⟩

/-- All bytes taken so far. -/
def framed (c : Collector) : Bytes :=
  c.parts.reverse.flatten

/-- How many bytes are wanted next; `none` when the payload is complete. -/
def wants (c : Collector) : Option Nat :=
  match c.phase with
  | .header => if c.declared ≤ c.decoded then none else some headerSize
  | .body _ length => some length

/-- Takes the header of a chunk. Model of `read_header`. -/
def takeHeader (c : Collector) (header : Bytes) : Except FrameError Collector :=
  match header with
  | [kind, l0, l1, l2] =>
    if isReserved kind then .error (.reservedChunk kind)
    else if c.parts = [] ∧ kind ≠ identifierKind then .error .missingIdentifier
    else .ok { c with
      phase := .body kind (Bytes.toNatLE [l0, l1, l2])
      parts := header :: c.parts }
  | _ => .error .shortHeader

/-- How much data the chunk of the kind with this body holds. -/
def dataLength (kind : UInt8) (body : Bytes) : Except FrameError Nat :=
  if kind = identifierKind then
    if body = identifierBody then .ok 0 else .error .badIdentifier
  else if kind = compressedKind then
    if body.length < checksumSize then .error .compressedTooShort
    else
      match Block.claimedLength (body.drop checksumSize) with
      | some length => .ok length
      | none => .error .undecodable
  else if kind = uncompressedKind then
    if body.length < checksumSize then .error .uncompressedTooShort
    else .ok (body.length - checksumSize)
  else .ok 0

/-- Takes the body of a chunk of the kind. Model of `read_body`. -/
def takeBody (c : Collector) (kind : UInt8) (body : Bytes) : Except FrameError Collector :=
  match dataLength kind body with
  | .error e => .error e
  | .ok length =>
    if maxChunkData < length then .error (.chunkTooLong length)
    else if c.declared < c.decoded + length then .error (.tooMuchData c.declared)
    else .ok { c with
      phase := .header
      parts := body :: c.parts
      decoded := c.decoded + length }

/-- Takes the bytes that were wanted. -/
def feed (c : Collector) (bytes : Bytes) : Except FrameError Collector :=
  match c.phase with
  | .header => c.takeHeader bytes
  | .body kind length => if bytes.length = length then c.takeBody kind bytes else .error .shortBody

/-- The payload of the frames taken so far. -/
def finish (c : Collector) : Except FrameError Bytes :=
  match decode c.framed with
  | none => .error .undecodable
  | some raw =>
    if raw.length = c.declared then .ok raw else .error (.lengthMismatch raw.length c.declared)

theorem phase_feed_of_body {c c' : Collector} {bytes : Bytes} {kind : UInt8} {length : Nat}
    (hp : c.phase = .body kind length) (h : c.feed bytes = .ok c') : c'.phase = .header := by
  simp only [feed, hp, takeBody] at h
  split at h
  · split at h
    · cases h
    · split at h
      · cases h
      · split at h
        · cases h
        · cases h; rfl
  · cases h

end Collector

/-- A size, if it fits into 64 bits. -/
def size64? (n : Nat) : Option Nat :=
  if n < 0x10000000000000000 then some n else none

/-- Of sums that are checked one after the other only the last one matters. -/
theorem size64?_bind_add (m n : Nat) :
    ((size64? m).bind fun size => size64? (size + n)) = size64? (m + n) := by
  by_cases h : m < 0x10000000000000000
  · rw [size64?, if_pos h, Option.bind_some]
  · have beyond : ¬ m + n < 0x10000000000000000 := by omega
    rw [size64?, if_neg h, Option.bind_none, size64?, if_neg beyond]

/-- The most bytes that the frames of a payload of `declared` bytes may take: the stream identifier
and, for each chunk, a header, a checksum and a block that grew by 32 bytes and a sixth. They are
counted in 64 bits; `none` when a number on the way does not fit. Model of `max_encoded_len`. -/
def maxEncodedLength (declared : Nat) : Option Nat := do
  let chunks := max ((declared + (maxChunkData - 1)) / maxChunkData) 1
  let overhead ← size64? (chunks * (headerSize + checksumSize + 32))
  let empty ← size64? (overhead + (headerSize + identifierBody.length))
  let plain ← size64? (empty + declared)
  size64? (plain + declared / 6)

end PeerCensus.Snappy
