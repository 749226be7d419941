import PeerCensus.Proofs.Keeper.Life

/-!
# What outcomes change

An outcome changes what attempts find out about a peer, and nothing that is known of its node from
discovery. What a peer once said and where it once was found is never forgotten, and a peer that has
been found is not looked for again. As a peer that is known is not created again, what discovery has
told of it stays as it is from then until the peer is removed, whatever sequences there are and however
they overlap.

Results:
* `Peer.Answers.later`, `Peer.later_result`: what an outcome keeps.
* `PeerStore.later_afterAll`: what events leave of a peer that stays stored.
* `Keeper.Machine.sameNode_performAll`: the same for the steps of a keeper, which reads a record long
  before it writes it.
* `outcomes_change`: all of this together.
-/

namespace PeerCensus

namespace Peer

/-- `q` tells of the node that `p` tells of, and of the same way to it. -/
structure SameNode (p q : Peer) : Prop where
  id : q.id = p.id
  nodeId : q.nodeId = p.nodeId
  publicKey : q.publicKey = p.publicKey
  ip : q.ip = p.ip
  tcpPort : q.tcpPort = p.tcpPort
  udpPort : q.udpPort = p.udpPort
  addresses : q.addresses = p.addresses
  forkId : q.forkId = p.forkId
  subnets : q.subnets = p.subnets

/-- Besides, whatever is known in `p` of what the node said, and of its place, is known in `q`. -/
structure Later (p q : Peer) : Prop extends SameNode p q where
  protocolVersion : p.protocolVersion.isSome = true → q.protocolVersion.isSome = true
  agent : p.agent.isSome = true → q.agent.isSome = true
  agentText : p.agentText.isSome = true → q.agentText.isSome = true
  location : p.location.isSome = true → q.location = p.location

variable {p q r : Peer}

theorem SameNode.refl (p : Peer) : p.SameNode p := ⟨rfl, rfl, rfl, rfl, rfl, rfl, rfl, rfl, rfl⟩

theorem SameNode.trans (h : p.SameNode q) (h' : q.SameNode r) : p.SameNode r where
  id := h'.id.trans h.id
  nodeId := h'.nodeId.trans h.nodeId
  publicKey := h'.publicKey.trans h.publicKey
  ip := h'.ip.trans h.ip
  tcpPort := h'.tcpPort.trans h.tcpPort
  udpPort := h'.udpPort.trans h.udpPort
  addresses := h'.addresses.trans h.addresses
  forkId := h'.forkId.trans h.forkId
  subnets := h'.subnets.trans h.subnets

theorem Later.refl (p : Peer) : p.Later p :=
  ⟨.refl p, fun h => h, fun h => h, fun h => h, fun _ => rfl⟩

theorem Later.trans (h : p.Later q) (h' : q.Later r) : p.Later r where
  toSameNode := h.toSameNode.trans h'.toSameNode
  protocolVersion := h'.protocolVersion ∘ h.protocolVersion
  agent := h'.agent ∘ h.agent
  agentText := h'.agentText ∘ h.agentText
  location known := by
    have same := h.location known
    exact (h'.location (same ▸ known)).trans same

/-! ## Outcomes -/

variable {clock : ChainClock} {resolve resolve' : Resolver} {now : Nat} {findings : Findings}
  {verdict : Verdict}

/-- Where a peer is found does not depend on what else is told of places, and not even on that once it
has been found. -/
theorem locate_congr (h : p.location = none → resolve' p.ip = resolve p.ip) :
    p.locate resolve' = p.locate resolve := by
  cases hlocation : p.location with
  | none => rw [locate_of_eq_none _ hlocation, locate_of_eq_none _ hlocation, h hlocation]
  | some location =>
    have known : p.location.isSome = true := by
      rw [hlocation]
      rfl
    rw [locate_of_isSome _ known, locate_of_isSome _ known]

/-- An answer is about the same node, and nothing is forgotten. -/
theorem Answers.later (h : p.Answers clock resolve now findings q) : p.Later q := by
  have same : p.SameNode q := by
    rw [h.frame]
    exact ⟨rfl, rfl, rfl, rfl, rfl, rfl, rfl, rfl, rfl⟩
  cases hidentity : findings.identity with
  | none =>
    obtain ⟨version, agent, text⟩ := h.silent hidentity
    exact ⟨same, (version ▸ ·), (agent ▸ ·), (text ▸ ·), h.located⟩
  | some identity =>
    obtain ⟨version, agent, text⟩ := h.identified identity hidentity
    exact ⟨same, fun _ => version ▸ rfl, fun _ => agent ▸ rfl, fun _ => text ▸ rfl, h.located⟩

theorem later_demoted (now : Nat) (p : Peer) : p.Later (p.demoted now) :=
  ⟨⟨rfl, rfl, rfl, rfl, rfl, rfl, rfl, rfl, rfl⟩, fun h => h, fun h => h, fun h => h, fun _ => rfl⟩

/-- Whatever an outcome makes of a peer is about the same node, and nothing is forgotten. -/
theorem later_result (h : verdict.result clock resolve now p = some q) : p.Later q := by
  cases verdict with
  | answered findings =>
    cases h
    exact (answers_refreshed clock resolve now findings p).later
  | exhausted =>
    rw [Verdict.result] at h
    split at h
    · cases h
    · cases h
      exact later_demoted now p
  | cancelled =>
    cases h
    exact .refl p

end Peer

/-- What is told of places matters for peers that have not been found, and of these only what is told of
their own addresses. -/
theorem Verdict.conclude_congr {resolve resolve' : Resolver} {p : Peer} (clock : ChainClock)
    (now : Nat) (store : PeerStore) (verdict : Verdict)
    (h : p.location = none → resolve' p.ip = resolve p.ip) :
    verdict.conclude clock resolve' now p store = verdict.conclude clock resolve now p store := by
  cases verdict with
  | answered findings =>
    have same :
        p.refreshed clock resolve' now findings = p.refreshed clock resolve now findings := by
      simp only [Peer.refreshed, Peer.locate_congr h]
    rw [conclude, conclude, same]
  | exhausted => rfl
  | cancelled => rfl

/-! ## Events -/

namespace PeerStore

variable {allowed : AllowedForks} {s : PeerStore} {p : Peer}

/-- A peer that is stored before and after an event is about the same node, and nothing is forgotten. -/
theorem later_after {e : Event} {q : Peer} (hp : s.registry.find? p.id = some p)
    (hq : (s.after allowed e).registry.find? p.id = some q) : p.Later q := by
  rcases origin_of_after hq with
    hold | ⟨r, rfl, hr⟩ | ⟨clock, resolve, now, verdict, p', -, hp', hresult⟩
  · cases hp.symm.trans hold
    exact .refl p
  · -- a known node is not taken in
    rw [after, (ingest_of_candidate hr).1, find?_create_of_some q hp] at hq
    cases hq
    exact .refl p
  · cases hp.symm.trans hp'
    exact Peer.later_result hresult

/-- As long as a peer stays stored it is about the same node, and nothing is forgotten. -/
theorem later_afterAll {events : List Event} (hp : s.registry.find? p.id = some p)
    (hkept : ∀ before, before <+: events →
      (s.afterAll allowed before).registry.find? p.id ≠ none) :
    ∃ q, (s.afterAll allowed events).registry.find? p.id = some q ∧ p.Later q := by
  induction events generalizing s p with
  | nil => exact ⟨p, hp, .refl p⟩
  | cons e events ih =>
    obtain ⟨q, hq⟩ := Option.ne_none_iff_exists'.1 (hkept [e] ⟨events, rfl⟩)
    have first : p.Later q := later_after hp hq
    rw [← first.id] at hq
    obtain ⟨r, hr, rest⟩ := ih hq fun before hbefore => by
      rw [first.id]
      exact hkept (e :: before) (List.cons_prefix_cons.2 ⟨rfl, hbefore⟩)
    exact ⟨r, first.id ▸ hr, first.trans rest⟩

end PeerStore

/-! ## Steps of a keeper -/

namespace Keeper

/-- Whatever the store and the keeper have under the id of `p` is about the node of `p`. -/
structure Machine.OfNode (p : Peer) (m : Machine) : Prop where
  stored : ∀ {q : Peer}, m.store.registry.find? p.id = some q → p.SameNode q
  records : ∀ {q : Peer}, q ∈ m.records → q.id = p.id → p.SameNode q

variable {c : Context} {m m' : Machine} {a : Action} {p : Peer}

/-- While there is a peer under the id, a step brings in nothing that is about another node. -/
theorem Machine.OfNode.makes (hm : m.OfNode p) (hknown : m.store.registry.find? p.id ≠ none)
    (h : Makes c m a m') : m'.OfNode p where
  stored {q} hq := by
    rcases stored_of_makes h hq with hold | rfl | ⟨now, verdict, r, hr, hresult⟩
    · exact hm.stored hold
    · obtain ⟨known, hknown⟩ := Option.ne_none_iff_exists'.1 hknown
      cases h
      rw [PeerStore.find?_create_of_some q hknown] at hq
      exact hm.stored (hknown.trans hq)
    · -- the record was in hand, and is of the same id
      have same := (Peer.later_result hresult).toSameNode
      have hid : r.id = p.id := same.id.symm.trans (Registry.id_of_find?_eq_some hq)
      exact (hm.records hr hid).trans same
  records {q} hq hid := by
    rcases records_of_makes h hq with hold | hread
    · exact hm.records hold hid
    · exact hm.stored (hid ▸ hread)

/-- As long as there is a peer under the id, all that is stored or in hand is about its node. -/
theorem Machine.ofNode_performAll {actions : List Action} (hm : m.OfNode p)
    (hkept : ∀ before, before <+: actions →
      (m.performAll c before).store.registry.find? p.id ≠ none) :
    (m.performAll c actions).OfNode p := by
  induction actions generalizing m with
  | nil => exact hm
  | cons a actions ih =>
    refine ih (m := m.perform c a) ?_ fun before hbefore =>
      hkept (a :: before) (List.cons_prefix_cons.2 ⟨rfl, hbefore⟩)
    rcases perform_eq c m a with same | hmakes
    · rwa [same]
    · exact hm.makes (hkept [] (List.nil_prefix ..)) hmakes

/-- A peer that stays stored is about the same node, if all records of it that the keeper had in hand
were. -/
theorem Machine.sameNode_performAll {actions : List Action}
    (hp : m.store.registry.find? p.id = some p)
    (hrecords : ∀ q ∈ m.records, q.id = p.id → p.SameNode q)
    (hkept : ∀ before, before <+: actions →
      (m.performAll c before).store.registry.find? p.id ≠ none) :
    ∃ q, (m.performAll c actions).store.registry.find? p.id = some q ∧ p.SameNode q := by
  have hm : m.OfNode p := by
    refine ⟨fun hq => ?_, fun hq => hrecords _ hq⟩
    cases hp.symm.trans hq
    exact .refl p
  obtain ⟨q, hq⟩ := Option.ne_none_iff_exists'.1 (hkept actions (List.prefix_refl _))
  exact ⟨q, hq, (ofNode_performAll hm hkept).stored hq⟩

end Keeper

/-- An answer that is stored makes the peer good, connectable and up to date, and changes what the peer
said about itself if it did, its place if that was not known, and nothing else; a failure changes the
score and the time only. A peer that has been found is not looked for again. So as long as a peer stays
stored, nothing that it said is forgotten and its place stays the same, and nothing that is known of
its node from discovery ever changes, also when a keeper has sequences overlap, as long as each of them
began with a record of this peer. -/
theorem outcomes_change :
    (∀ clock resolve now (p q : Peer) store (verdict : Verdict),
      (verdict.conclude clock resolve now p store).1.isStored = true →
      (verdict.conclude clock resolve now p store).2.registry.find? p.id = some q →
      ((∃ findings, verdict = .answered findings ∧ p.Answers clock resolve now findings q) ∨
        verdict = .exhausted ∧ q = { p with score := p.score.lowered, lastUpdated := now }) ∧
      p.Later q) ∧
    (∀ clock resolve resolve' now (p : Peer) store (verdict : Verdict),
      (p.location = none → resolve' p.ip = resolve p.ip) →
      verdict.conclude clock resolve' now p store = verdict.conclude clock resolve now p store) ∧
    (∀ allowed (s : PeerStore) (p : Peer) events, s.registry.find? p.id = some p →
      (∀ before, before <+: events → (s.afterAll allowed before).registry.find? p.id ≠ none) →
      ∃ q, (s.afterAll allowed events).registry.find? p.id = some q ∧ p.Later q) ∧
    ∀ c (m : Keeper.Machine) (p : Peer) actions, m.store.registry.find? p.id = some p →
      (∀ q ∈ m.records, q.id = p.id → p.SameNode q) →
      (∀ before, before <+: actions →
        (m.performAll c before).store.registry.find? p.id ≠ none) →
      ∃ q, (m.performAll c actions).store.registry.find? p.id = some q ∧ p.SameNode q := by
  refine ⟨fun clock resolve now p q store verdict hstored hq => ?_,
    fun clock resolve resolve' now p store verdict h => verdict.conclude_congr clock now store h,
    fun allowed s p events => PeerStore.later_afterAll,
    fun c m p actions => Keeper.Machine.sameNode_performAll⟩
  rcases verdict.leaves_conclude clock resolve now p store with ⟨hnot, -⟩ | ⟨-, hleft, -⟩
  · rw [hstored] at hnot
    cases hnot
  have hresult : verdict.result clock resolve now p = some q := hleft.symm.trans hq
  refine ⟨?_, Peer.later_result hresult⟩
  cases verdict with
  | answered findings =>
    cases hresult
    exact .inl ⟨findings, rfl, Peer.answers_refreshed ..⟩
  | exhausted =>
    rw [Verdict.result] at hresult
    split at hresult
    · cases hresult
    · cases hresult
      exact .inr ⟨rfl, rfl⟩
  | cancelled => cases hstored

open Keeper in
/-- A peer that fails, one about which a resolver tells nothing new, one that has answered and then
fails, and one that stays stored while a selection begins. -/
theorem outcomes_change_tried :
    Solo.peer.Later (Solo.peer.demoted 100) ∧
      (Verdict.answered Once.findings).conclude Once.clock
          (fun ip => .error (if ip = Solo.peer.ip then .notFound else .unavailable)) 100 Solo.peer
          Solo.start.store =
        (Verdict.answered Once.findings).conclude Once.clock Once.resolve 100 Solo.peer
          Solo.start.store ∧
      (∃ q, Once.keeper.store.registry.find? Newcomer.record.peerId = some q ∧
        (Newcomer.peer.refreshed Once.clock Once.resolve 1700000000 Once.findings).Later q) ∧
      ∃ q, (Solo.start.performAll Solo.context [.begin]).store.registry.find? Solo.peer.id =
        some q ∧ Solo.peer.SameNode q := by
  obtain ⟨written, unsought, events, steps⟩ := outcomes_change
  refine ⟨(written Solo.context.clock Solo.context.resolve 100 Solo.peer _ Solo.start.store
    .exhausted rfl rfl).2, unsought _ _ _ _ _ _ _ fun _ => ?_, ?_, ?_⟩
  · exact congrArg Except.error (if_pos rfl)
  · have hid := Verdict.id_refreshed Once.clock Once.resolve 1700000000 Once.findings Newcomer.peer
    have answered := Once.find?_answered
    have tried := Once.find?_keeper
    rw [show Newcomer.record.peerId = Newcomer.peer.id from rfl, ← hid] at answered tried ⊢
    refine events Newcomer.forks Once.answered _
      [.tried Once.clock Once.resolve Newcomer.record.peerId 1700003600 .exhausted] answered
      fun before hbefore => ?_
    rcases List.prefix_cons_iff.1 hbefore with rfl | ⟨_, rfl, hnil⟩
    · exact Option.ne_none_iff_exists'.2 ⟨_, answered⟩
    · rw [List.prefix_nil.1 hnil]
      exact Option.ne_none_iff_exists'.2 ⟨_, tried⟩
  · refine steps Solo.context Solo.start Solo.peer [.begin] rfl (fun q hq => ?_)
      fun before hbefore => ?_
    · exact absurd (show q ∈ [] from hq) List.not_mem_nil
    · rcases List.prefix_cons_iff.1 hbefore with rfl | ⟨_, rfl, hnil⟩
      · exact nofun
      · rw [List.prefix_nil.1 hnil]
        exact nofun

end PeerCensus
