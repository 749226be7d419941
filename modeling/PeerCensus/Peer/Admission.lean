import PeerCensus.Peer.Basic
import PeerCensus.Record.NodeRecord

/-!
# Admission

Which discovered nodes become peers: those that can be dialled and follow an allowed fork. The
checks are made in the order of the causes of `Rejection`, and the first that fails decides.

Results:
* `candidate_score`: an admitted peer has a good score and counts as never updated.
-/

namespace PeerCensus

/-- Why a node does not become a peer. -/
inductive Rejection
  | noTcpPort
  | noIp
  | missingFork
  | invalidFork (error : CodecError)
  | forkNotAllowed (digest : ForkDigest)
  deriving DecidableEq

/-- The text shown for a rejection. -/
def Rejection.message : Rejection → String
  | noTcpPort => "no tcp port"
  | noIp => "no ip address"
  | missingFork => "no eth2 entry"
  | invalidFork e => "invalid eth2 entry: " ++ e.message
  | forkNotAllowed digest => "fork digest " ++ digest.render ++ " not allowed"

/-- The forks whose nodes become peers. -/
structure AllowedForks where
  /-- The digests of the forks; without any, all forks are allowed. -/
  digests : List ForkDigest
  deriving DecidableEq

namespace AllowedForks

/-- Whether nodes of the fork become peers. -/
def allows (a : AllowedForks) (digest : ForkDigest) : Bool :=
  a.digests.isEmpty || a.digests.contains digest

/-- The fork of an admitted node. -/
def allowedFork (a : AllowedForks) (r : NodeRecord) : Except Rejection ForkId :=
  match r.fork? with
  | none => .error .missingFork
  | some (.error e) => .error (.invalidFork e)
  | some (.ok fork) => if a.allows fork.digest then .ok fork else .error (.forkNotAllowed fork.digest)

/-- The subnets of an admitted node; what cannot be read counts as none. -/
def subnetsOf (r : NodeRecord) : Subnets :=
  match r.subnets? with
  | some (.ok subnets) => subnets
  | _ => .empty

/-- The peer that a discovered node becomes. It has not been asked anything yet, and counts as last
updated at time zero, so that it is stale at once. Model of `admit`. -/
def candidate (a : AllowedForks) (r : NodeRecord) : Except Rejection Peer := do
  let some tcpPort := r.tcp | .error .noTcpPort
  let some ip := r.ip | .error .noIp
  let fork ← a.allowedFork r
  return {
    id := r.peerId
    nodeId := r.nodeId
    publicKey := Hex.encode r.publicKey.compressed
    ip
    tcpPort
    udpPort := r.udp
    addresses := r.addresses
    forkId := fork
    subnets := subnetsOf r
    protocolVersion := none
    agent := none
    agentText := none
    location := none
    sync := none
    score := .good
    connectable := false
    lastConnected := none
    lastUpdated := 0 }

theorem candidate_score {a : AllowedForks} {r : NodeRecord} {p : Peer} (h : a.candidate r = .ok p) :
    p.score = .good ∧ p.lastUpdated = 0 := by
  simp only [candidate, bind, Except.bind] at h
  split at h
  · split at h
    · split at h
      · cases h
      · cases h; exact ⟨rfl, rfl⟩
    · cases h
  · cases h

end AllowedForks

end PeerCensus
