import PeerCensus.Host.Error
import PeerCensus.Net.Multihash

/-!
# A host without connections

What a host answers that is connected to nobody, and whose dialling leads nowhere. It looks at the
id first, then at what else it was given, and only then for a connection. It names peers by the
canonical form of their ids.
-/

namespace PeerCensus.Unconnected

/-- How a host introduces the protocols it speaks. -/
def protocolFamily : String := "eth2/1.0.0"

/-- The answer to `next` about the peer, if its id is well formed. -/
def about (id : PeerId) (next : PeerId → HostError) : HostError :=
  match Multihash.canonical? id with
  | some id => next id
  | none => .invalidPeerId id

/-- The answer to connecting. -/
def connect (target : DialInfo) : HostError :=
  about target.id fun _ =>
    if target.tcpAddress?.isNone then .noDialableAddress else .dial "nobody answered"

/-- The answer to asking a peer who it is. -/
def identify (id : PeerId) : HostError :=
  about id .notConnected

/-- The answer to opening a stream. The name of a protocol starts with a slash. -/
def openStream (id : PeerId) (protocol : String) : HostError :=
  about id fun id =>
    if protocol.toList.head? = some '/' then .notConnected id
    else .negotiation "the name of a protocol starts with a slash"

end PeerCensus.Unconnected
