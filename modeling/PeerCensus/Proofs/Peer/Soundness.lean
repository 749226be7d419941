import PeerCensus.Proofs.Discovery.Intake
import PeerCensus.Proofs.Keeper.Outcome

/-!
# Sound peers

What holds of every peer that discovery and the keeper make: its names belong to its key, its
addresses to its ports, and what was found out about it is complete. An outcome does not touch how a
peer is reached, and what it writes down it writes down as a whole.

Results:
* `NodeRecord.Made.tcp_ne_zero`: no record that can be made has the TCP port zero.
* `Peer.Sound.tcpAddress?`: the address at which a sound peer is dialled.
* `Peer.sound_candidate`, `Peer.Sound.result`: an admitted peer is sound, and every outcome leaves it
  sound.
-/

namespace PeerCensus

namespace NodeRecord

/-- The records that can be made: from a signed record, or from a key step by step. -/
inductive Made : NodeRecord → Prop
  | signed {s : SignedRecord} {r : NodeRecord} : ofSigned s = .ok r → Made r
  | new (key : PublicKey) : Made (.new key)
  | withIp (ip : Ip) {r : NodeRecord} : Made r → Made (r.withIp ip)
  | withTcp (port : UInt16) {r : NodeRecord} : Made r → Made (r.withTcp port)
  | withUdp (port : UInt16) {r : NodeRecord} : Made r → Made (r.withUdp port)
  | withEntry (key : String) (value : Bytes) {r : NodeRecord} : Made r → Made (r.withEntry key value)

theorem Made.withFork (fork : ForkId) {r : NodeRecord} (h : r.Made) : (r.withFork fork).Made :=
  h.withEntry forkKey (Ssz.encode fork)

theorem port?_ne_zero (port : UInt16) : port? port ≠ some 0 := by
  rw [port?]
  split
  · simp
  · simpa using ‹port ≠ 0›

theorem tcp_endpoint_ne_zero (s : SignedRecord) : (endpoint s).2.1 ≠ some 0 := by
  have number (key : String) : ((s.number? key).bind fun n => port? n.toUInt16) ≠ some 0 := by
    intro h
    obtain ⟨n, -, hn⟩ := Option.bind_eq_some_iff.1 h
    exact port?_ne_zero _ hn
  rw [endpoint]
  split
  · exact number "tcp"
  · exact number "tcp6"
  · exact nofun

/-- Entries do not touch the TCP port. -/
theorem tcp_of_copyEntry {s : SignedRecord} {key : String} {r r' : NodeRecord}
    (h : copyEntry s key r = .ok r') : r'.tcp = r.tcp := by
  rw [copyEntry] at h
  split at h
  · cases h
    rfl
  · split at h
    · cases h
      rfl
    · cases h

theorem tcp_of_ofSigned {s : SignedRecord} {r : NodeRecord} (h : ofSigned s = .ok r) :
    r.tcp = (endpoint s).2.1 := by
  simp only [ofSigned, bind, Except.bind] at h
  split at h
  · cases h
  · rename_i r' hr'
    rw [tcp_of_copyEntry h, tcp_of_copyEntry hr']

theorem Made.tcp_ne_zero {r : NodeRecord} (h : r.Made) : r.tcp ≠ some 0 := by
  induction h with
  | signed hs =>
    rw [tcp_of_ofSigned hs]
    exact tcp_endpoint_ne_zero _
  | new key => exact nofun
  | withIp ip _ ih => exact ih
  | withTcp port _ _ => exact port?_ne_zero port
  | withUdp port _ ih => exact ih
  | withEntry key value _ ih => exact ih

end NodeRecord

namespace Peer

/-- What holds of every peer that is stored. -/
structure Sound (allowed : AllowedForks) (p : Peer) : Prop where
  /-- Both names belong to the key. -/
  key : ∃ k : PublicKey, p.publicKey = Hex.encode k.compressed ∧ p.id = .ofPublicKey k ∧
    p.nodeId = .ofPublicKey k
  tcpPort : p.tcpPort ≠ 0
  /-- The TCP address comes first, then the UDP address if there is a UDP port. -/
  addresses : p.addresses =
    ⟨p.ip, p.tcpPort, .tcp⟩ :: (p.udpPort.map fun port => Address.mk p.ip port .udp).toList
  fork : allowed.digests = [] ∨ p.forkId.digest ∈ allowed.digests
  score : 1 ≤ p.score.value ∧ p.score.value ≤ 3
  /-- It is known when a peer answered last, and what its head was, exactly if it has answered. -/
  answered : p.lastConnected.isSome = p.connectable ∧ p.sync.isSome = p.connectable
  /-- What a peer says about itself is known as a whole, or not at all. -/
  identity : p.protocolVersion = none ∧ p.agentText = none ∧ p.agent = none ∨
    ∃ version text, p.protocolVersion = some version ∧ p.agentText = some text ∧
      p.agent = some (.parse text)
  synced : ∀ status, p.sync = some status → status.synced = true → status.distance = 0

variable {allowed : AllowedForks} {p q : Peer}

/-- A sound peer is dialled at its TCP port. -/
theorem Sound.tcpAddress? (h : p.Sound allowed) :
    p.dialInfo.tcpAddress? = some ⟨p.ip, p.tcpPort, .tcp⟩ := by
  rw [DialInfo.tcpAddress?, dialInfo, h.addresses]
  rfl

/-! ## Admitted peers -/

theorem good_bounds : 1 ≤ Score.good.value ∧ Score.good.value ≤ 3 := by decide

theorem digest_of_allowedFork {r : NodeRecord} {fork : ForkId}
    (h : allowed.allowedFork r = .ok fork) :
    allowed.digests = [] ∨ fork.digest ∈ allowed.digests := by
  rw [AllowedForks.allowedFork] at h
  split at h
  · cases h
  · cases h
  · split at h
    · rename_i hallows
      cases h
      simpa [AllowedForks.allows] using hallows
    · cases h

theorem sound_candidate {r : NodeRecord} (hr : r.Made) (h : allowed.candidate r = .ok p) :
    p.Sound allowed := by
  obtain ⟨tcpPort, ip, fork, htcp, hip, hfork, rfl⟩ := AllowedForks.exists_of_candidate_eq_ok h
  refine {
    key := ⟨r.publicKey, rfl, rfl, rfl⟩
    tcpPort := ?_
    addresses := ?_
    fork := digest_of_allowedFork hfork
    score := good_bounds
    answered := ⟨rfl, rfl⟩
    identity := .inl ⟨rfl, rfl, rfl⟩
    synced := nofun }
  · rintro rfl
    exact hr.tcp_ne_zero htcp
  · rw [NodeRecord.addresses, hip, htcp]
    rfl

/-! ## Peers after an outcome -/

theorem distance_of_synced {clock : ChainClock} {head now : Nat}
    (h : (clock.classify head now).synced = true) : (clock.classify head now).distance = 0 := by
  rw [ChainClock.classify, if_pos (clock.classify_synced_iff head now |>.1 h)]

theorem Sound.identified (identity : Identity) (h : p.Sound allowed) :
    (p.identified identity).Sound allowed :=
  { h with identity := .inr ⟨_, _, rfl, rfl, rfl⟩ }

/-- What is written down of an answer, apart from what the peer said about itself. -/
theorem Sound.noted (clock : ChainClock) (head now : Nat) (location : Option Location)
    (h : p.Sound allowed) :
    ({ p with
      score := .good
      connectable := true
      sync := some (clock.classify head now)
      location
      lastConnected := some now
      lastUpdated := now } : Peer).Sound allowed :=
  { h with
    score := good_bounds
    answered := ⟨rfl, rfl⟩
    synced := by
      rintro _ ⟨⟩ hsynced
      exact distance_of_synced hsynced }

theorem Sound.refreshed (clock : ChainClock) (resolve : Resolver) (now : Nat) (findings : Findings)
    (h : p.Sound allowed) : (p.refreshed clock resolve now findings).Sound allowed := by
  rw [Peer.refreshed]
  cases findings.identity with
  | none => exact h.noted clock _ now _
  | some identity => exact (h.identified identity).noted clock _ now _

theorem Sound.demoted (now : Nat) (h : p.Sound allowed) (hbad : ¬ p.score.lowered.isBad = true) :
    (p.demoted now).Sound allowed := by
  have score : 1 ≤ p.score.lowered.value ∧ p.score.lowered.value ≤ 3 := by
    have := h.score
    rw [Score.isBad_iff] at hbad
    rw [Score.value_lowered] at hbad ⊢
    omega
  exact { h with score }

/-- Whatever an outcome makes of a sound peer is sound. -/
theorem Sound.result {clock : ChainClock} {resolve : Resolver} {now : Nat} {verdict : Verdict}
    (h : p.Sound allowed) (hq : verdict.result clock resolve now p = some q) : q.Sound allowed := by
  cases verdict with
  | answered findings =>
    cases hq
    exact h.refreshed clock resolve now findings
  | exhausted =>
    rw [Verdict.result] at hq
    split at hq
    · cases hq
    · rename_i hbad
      cases hq
      exact h.demoted now hbad
  | cancelled =>
    cases hq
    exact h

end Peer

end PeerCensus
