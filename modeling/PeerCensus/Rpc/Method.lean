import PeerCensus.Rpc.Exchange
import PeerCensus.Text.Quoted

/-!
# Methods

A method is described by its protocol name, the bounds of its payloads, the most chunks of a
response and the way payloads are written. A call writes the request and reads chunks until there
are enough or the stream is closed after at least one.
-/

namespace PeerCensus.Rpc

/-- A method with requests of type `Req` and responses of type `Resp`. -/
structure Method (Req Resp : Type) where
  /-- The name by which the protocol is asked for. -/
  protocol : String
  requestBounds : SizeBounds
  responseBounds : SizeBounds
  /-- The most chunks of a response. -/
  maxChunks : Nat
  compression : Compression
  deriving DecidableEq

/-- Both directions of a stream. -/
structure Duplex where
  source : Source
  sink : Sink
  deriving DecidableEq

namespace Duplex

/-- How many milliseconds reads and writes have waited. -/
def waited (d : Duplex) : Nat :=
  d.sink.waited + d.source.waited

/-- What a stream looks like to someone who writes first and then reads, and gives up after `deadline`
milliseconds. -/
def upTo (deadline : Nat) (d : Duplex) : Duplex :=
  ⟨d.source.upTo (deadline - d.sink.delay), d.sink.upTo deadline⟩

end Duplex

namespace Method

/-- The method whose payloads all have the sizes of their types. -/
def fixed (Req Resp : Type) [Ssz Req] [Ssz Resp] (protocol : String) (maxChunks : Nat) :
    Method Req Resp :=
  ⟨protocol, .exact (Ssz.size Req), .exact (Ssz.size Resp), maxChunks, .plain⟩

/-- The method with its payloads in snappy frames. Model of `with_compression`. -/
def compressed (m : Method Req Resp) : Method Req Resp :=
  { m with compression := .snappy }

/-- Bounds in the form of a record. -/
def describeBounds (b : SizeBounds) : String :=
  "SizeBounds \x7b min: " ++ toString b.min ++ ", max: " ++ toString b.max ++ " \x7d"

/-- The method in the form of a record, for people. -/
def describe (m : Method Req Resp) : String :=
  "RpcMethod \x7b protocol: " ++ Text.quote m.protocol ++
    ", request_bounds: " ++ describeBounds m.requestBounds ++
    ", response_bounds: " ++ describeBounds m.responseBounds ++
    ", response_chunks: " ++ toString m.maxChunks ++
    ", compression: " ++ (match m.compression with
      | .plain => "None"
      | .snappy => "Some(Snappy)") ++ " \x7d"

/-- Reads up to `n` chunks. Only when `started`, after at least one chunk, a closed stream ends the
response instead of the call. Model of the loop of `request`. -/
def readResponses [Ssz Resp] (compression : Compression) (bounds : SizeBounds) :
    Nat → Bool → Reader RpcError (List Resp)
  | 0, _ => pure []
  | n + 1, started => fun s =>
    match readChunk compression bounds s with
    | (.ok payload, s) =>
      match Ssz.decode Resp payload with
      | .error e => (.error (.failed (.codec e)), s)
      | .ok response =>
        match readResponses compression bounds n true s with
        | (.ok responses, s) => (.ok (response :: responses), s)
        | (.error halt, s) => (.error halt, s)
    | (.error (.failed .closed), s) =>
      if started then (.ok [], s) else (.error (.failed .closed), s)
    | (.error halt, s) => (.error halt, s)

/-- Makes one call over a fresh stream. Model of `request`. -/
def call [Ssz Req] [Ssz Resp] (m : Method Req Resp) (request : Req) (stream : Duplex) :
    Except (Halt RpcError) (List Resp) × Duplex :=
  match writeRequest m.compression m.requestBounds (Ssz.encode request) stream.sink with
  | (.error halt, sink) => (.error halt, { stream with sink := sink })
  | (.ok (), sink) =>
    let (result, source) :=
      readResponses m.compression m.responseBounds m.maxChunks false stream.source
    (result, ⟨source, sink⟩)

/-- What a call under a deadline came to. -/
structure Outcome (Resp : Type) where
  result : Except RpcError (List Resp)
  stream : Duplex
  /-- How many milliseconds it took. -/
  elapsed : Nat

/-- Makes one call that is given up after `deadline` milliseconds. Model of
`request_with_timeout`. -/
def callWithin [Ssz Req] [Ssz Resp] (m : Method Req Resp) (request : Req) (deadline : Nat)
    (stream : Duplex) : Outcome Resp :=
  match m.call request (stream.upTo deadline) with
  | (.ok responses, left) => ⟨.ok responses, left, left.waited - stream.waited⟩
  | (.error (.failed e), left) => ⟨.error e, left, left.waited - stream.waited⟩
  | (.error .hung, left) => ⟨.error .timeout, left, deadline⟩

/-- Makes one call that is given up after so many milliseconds, if there is a deadline. -/
def perform [Ssz Req] [Ssz Resp] (m : Method Req Resp) (request : Req) (deadline : Option Nat)
    (stream : Duplex) : Except (Halt RpcError) (List Resp) × Duplex :=
  match deadline with
  | none => m.call request stream
  | some deadline =>
    let outcome := m.callWithin request deadline stream
    (outcome.result.mapError .failed, outcome.stream)

end Method

end PeerCensus.Rpc
