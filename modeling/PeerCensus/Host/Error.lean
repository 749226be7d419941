import PeerCensus.Net.PeerId
import PeerCensus.Stream.Fault

/-!
# Errors of the host

A host connects to peers, asks them who they are and opens streams to them. A fault that means that
nothing happened in time is an error of its own, `timeout`, whatever its text.
-/

namespace PeerCensus

/-- Why an operation of the host failed. -/
inductive HostError
  | fault (fault : Fault)
  /-- The operation took too long. -/
  | timeout
  | notConnected (id : PeerId)
  /-- The id is not the text of a multihash that names a peer. -/
  | invalidPeerId (id : PeerId)
  | noDialableAddress
  /-- No address answered with the right key. -/
  | dial (reason : String)
  | transport (reason : String)
  | stopped
  | protocolNotSupported (protocol : String)
  | negotiation (reason : String)
  | identify (reason : String)
  deriving DecidableEq

namespace HostError

/-- The name of the kind of error, by which errors are counted. -/
def kind : HostError → String
  | fault _ => "Io"
  | timeout => "Timeout"
  | notConnected _ => "NotConnected"
  | invalidPeerId _ => "InvalidPeerId"
  | noDialableAddress => "NoDialableAddress"
  | dial _ => "Dial"
  | transport _ => "Transport"
  | stopped => "Stopped"
  | protocolNotSupported _ => "ProtocolNotSupported"
  | negotiation _ => "Negotiation"
  | identify _ => "Identify"

/-- The text shown for the error. -/
def message : HostError → String
  | fault f => "Host error: " ++ f.text
  | timeout => "Host operation timed out"
  | notConnected id => "Not connected to " ++ id.text
  | invalidPeerId id => "Invalid peer id " ++ id.text
  | noDialableAddress => "Peer has no dialable address"
  | dial reason => "Dial failed: " ++ reason
  | transport reason => "Transport setup failed: " ++ reason
  | stopped => "Host stopped"
  | protocolNotSupported protocol => "Protocol " ++ protocol ++ " not supported by peer"
  | negotiation reason => "Protocol negotiation failed: " ++ reason
  | identify reason => "Identify failed: " ++ reason

/-- The text of the error behind this one. -/
def source? : HostError → Option String
  | fault f => some f.text
  | _ => none

/-- The error for a fault below the host. -/
def ofFault (f : Fault) : HostError :=
  if f.kind = .timedOut then timeout else fault f

end HostError

end PeerCensus
