import PeerCensus.Proofs.Keeper.Freshness
import PeerCensus.Proofs.Peer.Soundness
import PeerCensus.Proofs.Store.Events

/-!
# The life of stored peers

Peers come into the store when nodes are discovered, and from then on only outcomes change them. The
keeper reads a record when it lists stale peers and writes it back, changed by the outcome, some time
later, when other outcomes may have been stored. So a property that every admitted peer has and every
outcome keeps holds of all stored peers only because it also holds of all records that the keeper has
in hand.

Results:
* `records_of_makes`, `stored_of_makes`: where the records that the keeper has in hand and those that
  are stored come from.
* `Life.has`: a property of admitted peers that outcomes keep holds at any time in a life.
* `life_sound`: every stored peer is sound, and stored under its own id.
-/

namespace PeerCensus.Keeper

open Machine

/-! ## Records in hand -/

/-- The peers that the selector was given and has not chosen among yet. -/
def Selector.listing : Selector → List Peer
  | .listed _ stale => stale
  | _ => []

/-- The peers that the keeper has in hand: those just listed, and those that wait for an outcome. -/
def Machine.records (m : Machine) : List Peer :=
  m.selector.listing ++ m.pending

variable {c : Context} {m m' : Machine} {a : Action} {q : Peer}

/-- A worker that moves on, and tries no other peer, has no other records in hand. -/
theorem records_set_subset {i : Nat} {w' : Worker} (hw' : w'.peers = []) :
    ({ m with workers := m.workers.set i w' } : Machine).records ⊆ m.records := by
  intro q hq
  rw [records, List.mem_append] at hq ⊢
  exact hq.imp_right fun h => pending_set_subset hw' h

theorem mem_records : q ∈ m.records ↔ q ∈ m.selector.listing ∨ q ∈ m.selector.marking ∨
    q ∈ m.selector.candidates ∨ q ∈ m.queue ∨ q ∈ m.workers.flatMap Worker.peers := by
  rw [records, List.mem_append, mem_pending]

/-- A record that the keeper has in hand after a step it had before, or it has just read it. -/
theorem records_of_makes (h : Makes c m a m') (hq : q ∈ m'.records) :
    q ∈ m.records ∨ m.store.registry.find? q.id = some q := by
  cases h with
  | create | outage | shutDown | report => exact .inl hq
  | begin hs | count hs | listRefused hs | acquire hs | mark hs | finish hs | close hs =>
    left
    simpa [mem_records, hs, Selector.listing, Selector.marking, Selector.candidates, or_assoc]
      using hq
  | abandon hs =>
    left
    simp only [mem_records, hs, Selector.listing, Selector.marking, Selector.candidates,
      List.not_mem_nil, false_or] at hq ⊢
    exact .inr hq
  | @list wanted _ _ stale _ hs hlist =>
    -- the only step that reads records
    rcases List.mem_append.1 hq with hlisted | hpending
    · exact .inr (PeerStore.mem_of_listStale hlist hlisted).1
    · left
      simpa [mem_records, mem_pending, hs, Selector.listing, Selector.marking, Selector.candidates]
        using hpending
  | @choose wanted stale hs =>
    left
    simp only [mem_records, hs, Selector.listing, Selector.marking, Selector.candidates,
      List.not_mem_nil, false_or] at hq ⊢
    exact hq.imp_left fun hchosen => (List.mem_filter.1 (List.mem_of_mem_take hchosen)).1
  | send hs =>
    left
    simp only [mem_records, hs, Selector.listing, Selector.marking, Selector.candidates,
      List.mem_append, List.mem_singleton, List.not_mem_nil, false_or] at hq ⊢
    tauto
  | @receive i p queue hw hqueue =>
    left
    rw [mem_records] at hq ⊢
    rw [hqueue, List.mem_cons]
    rcases hq with hlisted | hmarked | hcandidate | hqueue | hworker
    · exact .inl hlisted
    · exact .inr (.inl hmarked)
    · exact .inr (.inr (.inl hcandidate))
    · exact .inr (.inr (.inr (.inl (.inr hqueue))))
    · rcases mem_peers_set hworker with hold | hnew
      · exact .inr (.inr (.inr (.inr hold)))
      · exact .inr (.inr (.inr (.inl (.inl (List.mem_singleton.1 hnew)))))
  | settle | leave | release | retire => exact .inl (records_set_subset rfl hq)

/-- The peer that a worker tries is in hand. -/
theorem mem_records_of_probing {i : Nat} {p : Peer} (hw : m.workers[i]? = some (.probing p)) :
    p ∈ m.records :=
  mem_records.2 (.inr (.inr (.inr (.inr (List.mem_flatMap.2
    ⟨_, List.mem_of_getElem? hw, List.mem_singleton.2 rfl⟩)))))

/-- A peer that is stored after a step was stored before, or it has just been created, or an outcome
has made it of a record in hand. -/
theorem stored_of_makes {id : PeerId} (h : Makes c m a m')
    (hq : m'.store.registry.find? id = some q) :
    m.store.registry.find? id = some q ∨ a = .create q ∨
      ∃ now, ∃ verdict : Verdict, ∃ p ∈ m.records,
        verdict.result c.clock c.resolve now p = some q := by
  cases h with
  | create p =>
    rw [PeerStore.find?_create] at hq
    split at hq
    · cases hq
      exact .inr (.inl rfl)
    · exact .inl hq
  | report =>
    rw [PeerStore.registry_viewAll] at hq
    exact .inl hq
  | @list _ limit now _ _ _ hlist | @listRefused _ limit now _ _ _ hlist =>
    have same := PeerStore.registry_listStale now c.settings.staleAfter limit m.store
    rw [hlist] at same
    exact .inl (same ▸ hq)
  | @settle i now verdict p hw =>
    -- the outcome is that of the record in hand, which need not be the stored one any more
    rcases verdict.leaves_conclude c.clock c.resolve now p m.store with
      ⟨-, same⟩ | ⟨-, hleft, hothers⟩
    · exact .inl (same ▸ hq)
    · by_cases hid : id = p.id
      · subst hid
        exact .inr (.inr ⟨now, verdict, p, mem_records_of_probing hw, hleft.symm.trans hq⟩)
      · exact .inl ((hothers id hid).symm.trans hq)
  | outage | shutDown | begin | count | choose | acquire | mark | send | finish | abandon | close |
    receive | leave | release | retire => exact .inl hq

/-! ## Lives -/

/-- Whether the node of an event, if it has one, is told of by a record that can be made. -/
def Genuine : Event → Prop
  | .discovered r => r.Made
  | .outage _ | .tried .. => True

/-- The keeper at some time of its life, which began over an empty store. Nodes are discovered, stored
peers are tried, the store is asked by others, the keeper makes its steps and is started again, in any
order. A peer is created only when a node is discovered. The clocks, the places of addresses and the
settings of a step need not be those of the step before. -/
inductive Life (allowed : AllowedForks) : Machine → Prop
  | fresh (s : Settings) {store : PeerStore} : store.registry = .empty →
    Life allowed (.fresh s store)
  | event {m : Machine} {e : Event} : Life allowed m → Genuine e →
    Life allowed { m with store := m.store.after allowed e }
  | asked {m : Machine} {store : PeerStore} : Life allowed m → store.registry = m.store.registry →
    Life allowed { m with store }
  | step {c : Context} {m m' : Machine} {a : Action} : Life allowed m → (∀ p, a ≠ .create p) →
    m.step c a = some m' → Life allowed m'
  | restarted (s : Settings) {m : Machine} : Life allowed m → Life allowed (m.restarted s)

/-- A property that every admitted peer has and every outcome keeps. -/
structure Lasting (allowed : AllowedForks) (P : Peer → Prop) : Prop where
  candidate : ∀ {r : NodeRecord} {p : Peer}, r.Made → allowed.candidate r = .ok p → P p
  result : ∀ {clock : ChainClock} {resolve : Resolver} {now : Nat} {verdict : Verdict} {p q : Peer},
    P p → verdict.result clock resolve now p = some q → P q

/-- Every stored peer and every record in hand has the property `P`. -/
structure Machine.Has (P : Peer → Prop) (m : Machine) : Prop where
  stored : ∀ {id : PeerId} {p : Peer}, m.store.registry.find? id = some p → P p
  records : ∀ {p : Peer}, p ∈ m.records → P p

variable {allowed : AllowedForks} {P : Peer → Prop}

theorem Machine.Has.event {e : Event} (hP : Lasting allowed P) (hm : m.Has P) (he : Genuine e) :
    ({ m with store := m.store.after allowed e } : Machine).Has P where
  records := hm.records
  stored {id q} hq := by
    rcases PeerStore.origin_of_after hq with
      hold | ⟨r, rfl, hr⟩ | ⟨clock, resolve, now, verdict, p, -, hp, hresult⟩
    · exact hm.stored hold
    · exact hP.candidate he hr
    · exact hP.result (hm.stored hp) hresult

theorem Machine.Has.makes (hP : Lasting allowed P) (hm : m.Has P) (ha : ∀ p, a ≠ .create p)
    (h : Makes c m a m') : m'.Has P where
  records hq := (records_of_makes h hq).elim hm.records hm.stored
  stored {id q} hq := by
    rcases stored_of_makes h hq with hold | hcreate | ⟨now, verdict, p, hp, hresult⟩
    · exact hm.stored hold
    · exact absurd hcreate (ha q)
    · exact hP.result (hm.records hp) hresult

theorem Machine.Has.fresh (s : Settings) {store : PeerStore} (h : store.registry = .empty) :
    (Machine.fresh s store).Has P where
  records hp := by
    simp [Machine.fresh, mem_records, Selector.listing, Selector.marking, Selector.candidates,
      Worker.peers] at hp
  stored {id p} hp := by
    replace hp : store.registry.find? id = some p := hp
    rw [h] at hp
    cases hp

/-- A keeper that is started again has nothing in hand. -/
theorem Machine.Has.restarted (s : Settings) (hm : m.Has P) : (m.restarted s).Has P where
  records hp := by
    simp [Machine.restarted, Machine.fresh, mem_records, Selector.listing, Selector.marking,
      Selector.candidates, Worker.peers] at hp
  stored := hm.stored

/-- At any time in a life, every stored peer and every record in hand has what lasts. -/
theorem Life.has (hP : Lasting allowed P) (h : Life allowed m) : m.Has P := by
  induction h with
  | fresh s hempty => exact .fresh s hempty
  | event _ he ih => exact ih.event hP he
  | asked _ same ih => exact ⟨fun hp => ih.stored (same ▸ hp), ih.records⟩
  | step _ ha hstep ih => exact ih.makes hP ha (makes_of_step hstep)
  | restarted s _ ih => exact ih.restarted s

theorem lasting_sound (allowed : AllowedForks) : Lasting allowed (Peer.Sound allowed) where
  candidate := Peer.sound_candidate
  result := Peer.Sound.result

/-- At any time in a life that began over an empty store, every stored peer is stored under its own id
and is sound, and the address at which it is dialled is that of its TCP port. -/
theorem life_sound (h : Life allowed m) {id : PeerId} {p : Peer}
    (hp : m.store.registry.find? id = some p) :
    p.id = id ∧ p.Sound allowed ∧ p.dialInfo.tcpAddress? = some ⟨p.ip, p.tcpPort, .tcp⟩ := by
  have hsound : p.Sound allowed := (h.has (lasting_sound allowed)).stored hp
  exact ⟨Registry.id_of_find?_eq_some hp, hsound, hsound.tcpAddress?⟩

/-! ## A peer that answers once -/

namespace Once

open Newcomer

def clock : ChainClock := .mainnet

def resolve : Resolver := fun _ => .error .notFound

/-- What the peer answers with. -/
def findings : Findings := ⟨default, some ⟨"eth2/1.0.0", "teku/teku/v23.1.0/linux-x86_64"⟩⟩

/-- The store after the peer has been discovered and has answered. -/
def answered : PeerStore :=
  (store.after forks (.discovered record)).after forks
    (.tried clock resolve record.peerId 1700000000 (.answered findings))

/-- The keeper before its first step, when the peer has been tried again in vain. -/
def keeper : Machine :=
  .fresh Solo.context.settings
    (answered.after forks (.tried clock resolve record.peerId 1700003600 .exhausted))

/-- The peer as it is stored then. -/
def tried : Peer :=
  (peer.refreshed clock resolve 1700000000 findings).demoted 1700003600

theorem life_keeper : Life forks keeper := by
  have made : record.Made :=
    (((NodeRecord.Made.new key).withIp (.v4 ⟨10, 0, 0, 1⟩)).withTcp 9000).withFork fork
  have first : Life forks (.fresh Solo.context.settings store) := .fresh _ rfl
  have discovered := first.event (show Genuine (.discovered record) from made)
  have answered := discovered.event (show Genuine (.tried clock resolve record.peerId 1700000000
    (.answered findings)) from trivial)
  exact answered.event (show Genuine (.tried clock resolve record.peerId 1700003600 .exhausted)
    from trivial)

theorem down_discovered : (store.after forks (.discovered record)).down = [] :=
  down_ingest forks record store

theorem find?_answered : answered.registry.find? record.peerId =
    some (peer.refreshed clock resolve 1700000000 findings) :=
  PeerStore.find?_after_tried_of_up forks find?_record rfl (down_discovered ▸ List.not_mem_nil)

theorem find?_keeper : keeper.store.registry.find? record.peerId = some tried := by
  have up : answered.down = [] := (PeerStore.down_after_tried ..).trans down_discovered
  exact PeerStore.find?_after_tried_of_up forks find?_answered rfl (up ▸ List.not_mem_nil)

end Once

/-- A peer that answered once and then did not is connectable still, and has lost a point. -/
theorem life_sound_tried :
    Life Newcomer.forks Once.keeper ∧
      Once.keeper.store.registry.find? Once.tried.id = some Once.tried ∧
      Once.tried.Sound Newcomer.forks ∧
      Once.tried.connectable = true ∧ Once.tried.score = ⟨2⟩ :=
  ⟨Once.life_keeper, Once.find?_keeper,
    (life_sound Once.life_keeper Once.find?_keeper).2.1, rfl, by decide⟩

end PeerCensus.Keeper
