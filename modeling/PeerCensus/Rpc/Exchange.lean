import PeerCensus.Rpc.Frame
import PeerCensus.Stream.Sink
import PeerCensus.Text.Utf8

/-!
# Requests and responses

A request is one frame, after which the asking side closes its direction. A response is a row of
chunks, each a result code and a frame: a payload after `success`, a message for people otherwise.
-/

namespace PeerCensus.Rpc

/-- The bounds of the message of a chunk that is not a success. -/
def messageBounds : SizeBounds := ⟨0, 256⟩

/-- Reads a request. Model of `read_request`. -/
def readRequest (compression : Compression) (bounds : SizeBounds) : Reader RpcError Bytes :=
  readFrame compression bounds

/-- Reads what follows the result code `code`. -/
def readAfterCode (compression : Compression) (bounds : SizeBounds) :
    ResultCode → Reader RpcError Bytes
  | .success => readFrame compression bounds
  | code => do
    let raw ← readFrame compression messageBounds
    Reader.fail (.errorResponse code (Utf8.decodeLossy raw))

/-- Reads one chunk of a response and gives the payload of a success. Model of
`read_response_chunk`. -/
def readChunk (compression : Compression) (bounds : SizeBounds) : Reader RpcError Bytes := do
  match ← Reader.mapError RpcError.ofFault Reader.byte? with
  | none => Reader.fail .closed
  | some b =>
    match ResultCode.ofByte? b with
    | none => Reader.fail (.violation (.unknownResultCode b))
    | some code => readAfterCode compression bounds code

/-- The bytes of a chunk. -/
def encodeChunk (compression : Compression) (code : ResultCode) (payload : Bytes) : Bytes :=
  code.toByte :: encodeFrame compression payload

/-- Writes a request and closes the writing side. A payload outside of the bounds is not written.
Model of `write_request`. -/
def writeRequest (compression : Compression) (bounds : SizeBounds) (payload : Bytes) (s : Sink) :
    Except (Halt RpcError) Unit × Sink :=
  if bounds.contains payload.length then
    match s.ready.writeAll (encodeFrame compression payload) with
    | (.error halt, s) => (.error (halt.map .ofFault), s)
    | (.ok (), s) =>
      match s.flush with
      | (.error halt, s) => (.error (halt.map .ofFault), s)
      | (.ok (), s) =>
        match s.close with
        | (.error halt, s) => (.error (halt.map .ofFault), s)
        | (.ok (), s) => (.ok (), s)
  else (.error (.failed (outOfBounds payload.length bounds)), s)

/-- Writes one chunk of a response. A payload outside of the bounds is not written. Model of
`write_response_chunk`. -/
def writeChunk (compression : Compression) (code : ResultCode) (bounds : SizeBounds)
    (payload : Bytes) (s : Sink) : Except (Halt RpcError) Unit × Sink :=
  if bounds.contains payload.length then
    match s.ready.writeAll (encodeChunk compression code payload) with
    | (.error halt, s) => (.error (halt.map .ofFault), s)
    | (.ok (), s) =>
      match s.flush with
      | (.error halt, s) => (.error (halt.map .ofFault), s)
      | (.ok (), s) => (.ok (), s)
  else (.error (.failed (outOfBounds payload.length bounds)), s)

end PeerCensus.Rpc
