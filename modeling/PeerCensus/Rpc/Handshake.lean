import PeerCensus.Chain.Status
import PeerCensus.Rpc.Method

/-!
# The status handshake

Each side sends its status once, in snappy frames.
-/

namespace PeerCensus.Rpc

/-- The name of the protocol of the status handshake. -/
def statusProtocol : String := "/eth2/beacon_chain/req/status/1/ssz_snappy"

/-- The method of the status handshake. -/
def statusMethod : Method Status Status :=
  (Method.fixed Status Status statusProtocol 1).compressed

/-- What a status handshake came to. -/
structure HandshakeOutcome where
  result : Except RpcError Status
  stream : Duplex
  /-- How many milliseconds it took. -/
  elapsed : Nat

/-- Exchanges status with a peer seen on the fork `digest`, giving up after `deadline`
milliseconds. Model of `fetch_status`. -/
def handshake (digest : ForkDigest) (deadline : Nat) (stream : Duplex) : HandshakeOutcome :=
  let outcome := statusMethod.callWithin (.asking digest) deadline stream
  let result :=
    match outcome.result with
    | .error e => .error e
    | .ok responses =>
      match responses.getLast? with
      | some status => .ok status
      | none => .error .closed
  ⟨result, outcome.stream, outcome.elapsed⟩

end PeerCensus.Rpc
