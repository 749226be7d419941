import PeerCensus.Chain.Clock
import PeerCensus.Chain.Fork
import PeerCensus.Chain.Subnets
import PeerCensus.Net.PeerId
import PeerCensus.Peer.Agent
import PeerCensus.Peer.Location
import PeerCensus.Peer.Score

/-!
# Peers

All that is known of one peer: how to reach it, the fork it announced, what it said about itself
when it was asked, and how well it answers. Times are in seconds since the epoch.
-/

namespace PeerCensus

/-- One peer of the network. -/
structure Peer where
  id : PeerId
  nodeId : NodeId
  /-- The compressed public key in hexadecimal. -/
  publicKey : String
  ip : Ip
  tcpPort : UInt16
  udpPort : Option UInt16
  addresses : List Address
  forkId : ForkId
  subnets : Subnets
  protocolVersion : Option String
  agent : Option Agent
  /-- The text that `agent` was read from. -/
  agentText : Option String
  location : Option Location
  /-- How its head compares with the expected one; none before it has answered. -/
  sync : Option SyncStatus
  score : Score
  /-- Whether it answered the last sequence of attempts. -/
  connectable : Bool
  /-- When it answered last. -/
  lastConnected : Option Nat
  /-- When a sequence of attempts ended last; zero for a new peer. -/
  lastUpdated : Nat
  deriving DecidableEq

namespace Peer

/-- What is needed to dial the peer. Model of `addr_info`. -/
def dialInfo (p : Peer) : DialInfo :=
  ⟨p.id, p.addresses⟩

/-- The text of a peer. -/
def render (p : Peer) : String :=
  p.id.text ++ " " ++ p.ip.render ++ ":" ++ toString p.tcpPort.toNat ++ " ([peer] digest: " ++
    p.forkId.digest.render ++ ", score: " ++ p.score.render ++ ", agent: " ++
    (match p.agent with
      | some agent => agent.render
      | none => "unknown") ++ ")"

end Peer

end PeerCensus
