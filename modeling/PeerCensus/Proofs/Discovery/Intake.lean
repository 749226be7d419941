import PeerCensus.Discovery.Intake
import PeerCensus.Proofs.Store.Registry

/-!
# What the intake leaves stored

A node that is taken in adds one peer to the store, under an id that was not known before, or it
changes nothing.

Results:
* `find?_ingest`: what is stored under each id after a node has been taken in.
-/

namespace PeerCensus

namespace AllowedForks

variable {a : AllowedForks} {r : NodeRecord} {p : Peer}

/-- An admitted node has a TCP port and an address, and follows an allowed fork. -/
theorem exists_of_candidate_eq_ok (h : a.candidate r = .ok p) :
    ∃ tcpPort ip fork, r.tcp = some tcpPort ∧ r.ip = some ip ∧ a.allowedFork r = .ok fork ∧
      p = {
        id := r.peerId
        nodeId := r.nodeId
        publicKey := Hex.encode r.publicKey.compressed
        ip
        tcpPort
        udpPort := r.udp
        addresses := r.addresses
        forkId := fork
        subnets := subnetsOf r
        protocolVersion := none
        agent := none
        agentText := none
        location := none
        sync := none
        score := .good
        connectable := false
        lastConnected := none
        lastUpdated := 0 } := by
  simp only [candidate, bind, Except.bind] at h
  split at h
  · rename_i tcpPort htcp
    split at h
    · rename_i ip hip
      split at h
      · cases h
      · rename_i fork hfork
        cases h
        exact ⟨tcpPort, ip, fork, htcp, hip, hfork, rfl⟩
    · cases h
  · cases h

theorem id_of_candidate_eq_ok (h : a.candidate r = .ok p) : p.id = r.peerId := by
  obtain ⟨_, _, _, -, -, -, rfl⟩ := exists_of_candidate_eq_ok h
  rfl

end AllowedForks

variable {allowed : AllowedForks} {r : NodeRecord} {s : PeerStore}

/-- Whatever becomes of a node that is admitted, its peer is created then and there. -/
theorem ingest_of_candidate {p : Peer} (h : allowed.candidate r = .ok p) :
    (ingest allowed r s).2 = (s.create p).2 ∧
      ((ingest allowed r s).1 = .created ↔ (s.create p).1 = .ok true) := by
  rw [ingest, h]
  dsimp only
  split <;> rename_i hcreate <;> simp [hcreate]

/-- A node whose peer is stored was admitted, and its id was not known before. -/
theorem exists_of_ingest_created (h : (ingest allowed r s).1 = .created) :
    ∃ p, allowed.candidate r = .ok p ∧ s.registry.find? r.peerId = none ∧
      (ingest allowed r s).2.registry.find? r.peerId = some p := by
  cases hcandidate : allowed.candidate r with
  | error reason =>
    rw [ingest_of_rejected hcandidate] at h
    cases h
  | ok p =>
    obtain ⟨hstore, hcreated⟩ := ingest_of_candidate (s := s) hcandidate
    have htrue := hcreated.1 h
    have hid := AllowedForks.id_of_candidate_eq_ok hcandidate
    refine ⟨p, rfl, hid ▸ PeerStore.find?_of_create_eq_true htrue, ?_⟩
    rw [hstore, PeerStore.find?_create, if_pos ⟨htrue, hid.symm⟩]

/-- A node that is taken in adds its peer, or changes nothing. -/
theorem find?_ingest (allowed : AllowedForks) (r : NodeRecord) (s : PeerStore) (id : PeerId) :
    (ingest allowed r s).2.registry.find? id =
      if (ingest allowed r s).1 = .created ∧ id = r.peerId then (allowed.candidate r).toOption
      else s.registry.find? id := by
  cases hcandidate : allowed.candidate r with
  | error reason => simp [ingest_of_rejected hcandidate]
  | ok p =>
    obtain ⟨hstore, hcreated⟩ := ingest_of_candidate (s := s) hcandidate
    rw [hstore, PeerStore.find?_create, AllowedForks.id_of_candidate_eq_ok hcandidate]
    simp only [hcreated]
    rfl

/-- Taking a node in does not change which calls are refused. -/
theorem down_ingest (allowed : AllowedForks) (r : NodeRecord) (s : PeerStore) :
    (ingest allowed r s).2.down = s.down := by
  cases hcandidate : allowed.candidate r with
  | error reason => rw [ingest_of_rejected hcandidate]
  | ok p =>
    rw [(ingest_of_candidate hcandidate).1]
    exact PeerStore.down_answer ..

/-! ## A node that is discovered first -/

namespace Newcomer

open Secp256k1

/-- The key whose point is the base point of the curve. -/
def key : PublicKey := ⟨baseX, baseY, by decide, by decide, by decide⟩

def fork : ForkId := ⟨⟨⟨[0xbb, 0xa4, 0xda, 0x96], rfl⟩⟩, ⟨⟨[4, 0, 0, 0], rfl⟩⟩, 0xffffffffffffffff⟩

/-- A node with a TCP port on an allowed fork. -/
def record : NodeRecord :=
  (((NodeRecord.new key).withIp (.v4 ⟨10, 0, 0, 1⟩)).withTcp 9000).withFork fork

def forks : AllowedForks := ⟨[fork.digest]⟩

/-- The peer that the node becomes. -/
def peer : Peer where
  id := record.peerId
  nodeId := record.nodeId
  publicKey := Hex.encode key.compressed
  ip := .v4 ⟨10, 0, 0, 1⟩
  tcpPort := 9000
  udpPort := none
  addresses := record.addresses
  forkId := fork
  subnets := .empty
  protocolVersion := none
  agent := none
  agentText := none
  location := none
  sync := none
  score := .good
  connectable := false
  lastConnected := none
  lastUpdated := 0

theorem candidate_record : forks.candidate record = .ok peer := rfl

/-- An empty store that answers. -/
def store : PeerStore := .ofRegistry .empty

theorem ingest_record : (ingest forks record store).1 = .created := rfl

theorem find?_record : (ingest forks record store).2.registry.find? record.peerId = some peer := by
  rw [find?_ingest, if_pos ⟨ingest_record, rfl⟩, candidate_record]
  rfl

end Newcomer

end PeerCensus
