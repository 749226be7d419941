import PeerCensus.Chain.Fork

/-!
# Status

What a node says about its view of the chain in the status handshake: 84 bytes, the same for the
request and the response.
-/

namespace PeerCensus

/-- A node's view of the chain. -/
structure Status where
  forkDigest : ForkDigest
  finalizedRoot : Root
  finalizedEpoch : UInt64
  headRoot : Root
  headSlot : UInt64
  deriving DecidableEq, Inhabited

instance : Ssz Status where
  size := 84
  encode s := Ssz.encode s.forkDigest ++ Ssz.encode s.finalizedRoot ++ Ssz.encode s.finalizedEpoch ++
    Ssz.encode s.headRoot ++ Ssz.encode s.headSlot
  read := do return ⟨← Ssz.read, ← Ssz.read, ← Ssz.read, ← Ssz.read, ← Ssz.read⟩

namespace Status

/-- The text of a status. -/
def render (s : Status) : String :=
  "digest: " ++ s.forkDigest.render ++ ", finalized epoch: " ++ toString s.finalizedEpoch.toNat ++
    ", head slot: " ++ toString s.headSlot.toNat

/-- The status sent to a peer that was seen on the fork `digest`. Who follows no chain knows nothing
but the fork, so the rest is zero. Model of `status_request`. -/
def asking (digest : ForkDigest) : Status :=
  ⟨digest, ⟨.zeros 32⟩, 0, ⟨.zeros 32⟩, 0⟩

end Status

end PeerCensus
