import PeerCensus.Hash.Crc32c
import PeerCensus.Snappy.Matcher

/-!
# Snappy frames

A framed stream is a row of chunks: a kind, a length of 24 bits, and a body. The first chunk is the
stream identifier; data chunks hold a masked checksum of their data and at most 65536 bytes of it,
either in a block or as they are. Chunks of the kinds from `0x80` to `0xfe` are passed over.

Results:
* `encode_nil`: no data is written as nothing at all.
-/

namespace PeerCensus.Snappy

/-- The kind of a chunk with its data in a block. -/
def compressedKind : UInt8 := 0x00

/-- The kind of a chunk with its data as it is. -/
def uncompressedKind : UInt8 := 0x01

/-- The kind of a stream identifier. -/
def identifierKind : UInt8 := 0xff

/-- The body of a stream identifier. -/
def identifierBody : Bytes := [0x73, 0x4e, 0x61, 0x50, 0x70, 0x59]

/-- The most bytes of data in one chunk. -/
def maxChunkData : Nat := 65536

/-- The size of a chunk's header: its kind and its length. -/
def headerSize : Nat := 4

/-- The size of the checksum before the data. -/
def checksumSize : Nat := 4

/-- The largest body that is decoded: what a block of `maxChunkData` bytes may grow to. -/
def maxBody : Nat := 32 + maxChunkData + maxChunkData / 6

/-- Whether a chunk of the kind must be understood by every reader. -/
def isReserved (kind : UInt8) : Bool :=
  0x02 ≤ kind && kind ≤ 0x7f

/-- A chunk of a framed stream. -/
structure Chunk where
  kind : UInt8
  body : Bytes
  deriving DecidableEq

namespace Chunk

/-- The header and the body. -/
def encode (c : Chunk) : Bytes :=
  c.kind :: Bytes.ofNatLE 3 c.body.length ++ c.body

/-- The stream identifier. -/
def identifier : Chunk := ⟨identifierKind, identifierBody⟩

/-- The checksum as it stands before the data. -/
def checksum (data : Bytes) : Bytes :=
  Bytes.ofNatLE checksumSize (Crc32c.masked data).toNat

/-- The chunk for at most `maxChunkData` bytes: a block when it saves more than an eighth. -/
def ofData (data : Bytes) : Chunk :=
  let block := Block.encode data
  if data.length - data.length / 8 ≤ block.length then ⟨uncompressedKind, checksum data ++ data⟩
  else ⟨compressedKind, checksum data ++ block⟩

/-- The data of a chunk; `none` for a chunk that has no place in a stream. -/
def data? (c : Chunk) : Option Bytes :=
  if c.kind = identifierKind then
    if c.body = identifierBody then some [] else none
  else if isReserved c.kind ∨ maxBody < c.body.length then none
  else if c.kind = compressedKind ∨ c.kind = uncompressedKind then do
    let (sum, rest) ← Element.takeExactly checksumSize c.body
    let data ← if c.kind = compressedKind then Block.decode rest else some rest
    if maxChunkData < data.length ∨ sum ≠ checksum data then none
    return data
  else some []

end Chunk

/-- The framed stream for `raw`. -/
def encode (raw : Bytes) : Bytes :=
  if raw = [] then []
  else Chunk.identifier.encode ++
    (Bytes.chunks (maxChunkData - 1) raw).flatMap fun data => (Chunk.ofData data).encode

theorem encode_nil : encode [] = [] := rfl

/-- Reads the chunks of a framed stream to its end. Fewer bytes than a header are not a chunk and
end it too. -/
def readChunks (bytes : Bytes) : Option (List Chunk) :=
  match bytes with
  | kind :: l0 :: l1 :: l2 :: rest =>
    let size := Bytes.toNatLE [l0, l1, l2]
    let body := rest.take size
    if body.length < size then none else (readChunks (rest.drop size)).map (⟨kind, body⟩ :: ·)
  | _ => some []
termination_by bytes.length
decreasing_by
  simp only [List.length_drop, List.length_cons]
  omega

/-- The data of a framed stream, which begins with a stream identifier unless it is empty. -/
def decode (bytes : Bytes) : Option Bytes := do
  let chunks ← readChunks bytes
  if chunks.head?.any fun c => c.kind ≠ identifierKind then none
  return (← chunks.mapM Chunk.data?).flatten

end PeerCensus.Snappy
