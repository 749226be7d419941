import PeerCensus.Rpc.Error

/-!
# Frames

A frame is the length of a payload as a varint, followed by the payload, as it is or in snappy
frames. The length is checked before anything of the payload is read, and the frames of a payload
are never read beyond what its length allows.
-/

namespace PeerCensus.Rpc

/-- How the payloads of a method are written. -/
inductive Compression
  | plain
  | snappy
  deriving DecidableEq, Repr

/-- The frame of a payload. Model of `encode_frame`. -/
def encodeFrame (compression : Compression) (payload : Bytes) : Bytes :=
  Varint.encode payload.length ++
    match compression with
    | .plain => payload
    | .snappy => Snappy.encode payload

/-- The violation of a declared length that is not allowed. -/
def outOfBounds (length : Nat) (bounds : SizeBounds) : RpcError :=
  .violation (.lengthOutOfBounds length bounds)

/-- How much there is still to do for a collector that may take `room` more bytes. -/
def weight (room : Nat) (phase : Snappy.Phase) : Nat :=
  match phase with
  | .header => 2 * room
  | .body _ _ => 2 * room + 1

/-- Reads what the collector `c` wants until it is complete. `consumed` bytes have been read for it,
and no read goes beyond `limit` bytes in all. Model of the loop of `read_frame`. -/
def collect (limit consumed : Nat) (c : Snappy.Collector) : Reader RpcError Bytes :=
  match _wanted : c.wants with
  | none => Reader.ofExcept (c.finish.mapError fun e => .compression (.invalidEncoding e))
  | some wanted =>
    if _within : consumed + wanted ≤ limit then do
      let bytes ← Reader.mapError RpcError.ofFault (Reader.exactly wanted)
      match _fed : c.feed bytes with
      | .error e => Reader.fail (.compression (.invalidEncoding e))
      | .ok next => collect limit (consumed + wanted) next
    else Reader.fail (.violation (.encodedLengthExceeded limit))
termination_by weight (limit - consumed) c.phase
decreasing_by
  cases hp : c.phase with
  | header =>
    have : wanted = Snappy.headerSize := by
      simp only [Snappy.Collector.wants, hp] at _wanted
      split at _wanted <;> simp_all
    simp only [Snappy.headerSize] at this
    unfold weight
    split <;> omega
  | body kind length =>
    have := Snappy.Collector.phase_feed_of_body hp _fed
    simp only [weight, this]
    omega

/-- Reads the frame of a payload whose length is within `bounds`. Model of `read_frame`. -/
def readFrame (compression : Compression) (bounds : SizeBounds) : Reader RpcError Bytes := do
  let declared ← Reader.mapError RpcError.ofVarint Varint.read
  if bounds.contains declared then
    match compression with
    | .plain => Reader.mapError RpcError.ofFault (Reader.exactly declared)
    | .snappy =>
      match Snappy.maxEncodedLength declared with
      | none => Reader.fail (outOfBounds declared bounds)
      | some limit => collect limit 0 (.new declared)
  else Reader.fail (outOfBounds declared bounds)

end PeerCensus.Rpc
