import PeerCensus.Proofs.Keeper.Capacity

/-!
# What the keeper knows of the peers it tries

The record of a peer is read when stale peers are listed, and written again when its outcome is
stored. In between nobody else writes to it: from the moment it is put in flight only the worker
that tries it does. One gap is left, between the list and the choice among the listed. When the
outcome of an earlier sequence is stored in it and that sequence has left before the choice, the
peer is chosen with the record from before that outcome. Then, and only then, an outcome can be lost.

Results:
* `fresh_makes`: a step keeps every chosen peer as it is stored, unless it is outdated.
* `exists_of_send`, `find?_of_settle`: what is known of a peer that is handed over, and of one whose
  outcome is stored.
* `run_fresh`: what holds when a peer is handed over, and when its outcome is stored.
* `outdated_handed_over`: what can happen to a peer chosen in the gap, or after a refused outcome.
-/

namespace PeerCensus.Keeper

open Machine

/-- The peer that a worker tries, if any. -/
def Worker.peers : Worker → List Peer
  | .probing p => [p]
  | .idle | .settled _ | .departing _ | .stopped => []

namespace Machine

/-- The peers that wait for an outcome: those that the selector has chosen, those on the queue and
those that are tried. -/
def pending (m : Machine) : List Peer :=
  m.selector.marking ++ m.selector.candidates ++ m.queue ++ m.workers.flatMap Worker.peers

/-- The peer was last updated longer ago than it is fresh for, at the time of the last list. -/
def Due (c : Context) (h : History) (p : Peer) : Prop :=
  p.lastUpdated < h.listedAt - c.settings.staleAfter

/-- The machine knows the records of the peers that wait for an outcome. -/
structure Fresh (c : Context) (h : History) (m : Machine) : Prop where
  listed : ∀ wanted stale, m.selector = .listed wanted stale → ∀ p ∈ stale,
    Due c h p ∧ (p.id ∉ h.concluded → m.store.registry.find? p.id = some p)
  due : ∀ p ∈ m.selector.marking ++ m.selector.candidates, Due c h p
  current : ∀ p ∈ m.pending, p.id ∉ h.outdated → m.store.registry.find? p.id = some p
  storedAt : ∀ id t, h.storedAt id = some t →
    ∃ p, m.store.registry.find? id = some p ∧ p.lastUpdated = t

end Machine

variable {c : Context} {m m' : Machine} {h : History}

/-! ## Peers apart -/

theorem mem_pending {q : Peer} : q ∈ m.pending ↔ q ∈ m.selector.marking ∨
    q ∈ m.selector.candidates ∨ q ∈ m.queue ∨ q ∈ m.workers.flatMap Worker.peers := by
  simp only [pending, List.mem_append, or_assoc]

theorem mem_peers_set {ws : List Worker} {i : Nat} {w' : Worker} {q : Peer}
    (hq : q ∈ (ws.set i w').flatMap Worker.peers) :
    q ∈ ws.flatMap Worker.peers ∨ q ∈ w'.peers := by
  obtain ⟨w, hw, hqw⟩ := List.mem_flatMap.1 hq
  rcases List.mem_or_eq_of_mem_set hw with hold | rfl
  · exact .inl (List.mem_flatMap.2 ⟨w, hold, hqw⟩)
  · exact .inr hqw

theorem ids_of_peers {ws : List Worker} {q : Peer} (hq : q ∈ ws.flatMap Worker.peers) :
    q.id ∈ ws.flatMap Worker.ids := by
  obtain ⟨w, hw, hqw⟩ := List.mem_flatMap.1 hq
  refine List.mem_flatMap.2 ⟨w, hw, ?_⟩
  cases w <;> simp_all [Worker.peers, Worker.ids]

/-- Nobody else waits for an outcome of a peer that is tried. -/
theorem id_ne_of_tried (hm : Balanced c.settings m) {i : Nat} {p q : Peer}
    (hw : m.workers[i]? = some (.probing p))
    (hq : q ∈ ({ m with workers := m.workers.set i (.settled p.id) } : Machine).pending) :
    q.id ≠ p.id := by
  intro hid
  obtain ⟨front, back, hws, hset⟩ := exists_split hw
  have once : ((m.selector.marking.map Peer.id ++ m.jobs) ++
      m.selector.candidates.map Peer.id).Nodup :=
    (hm.inFlight.append_right _).nodup_iff.1 hm.nodup
  have counts := List.nodup_iff_count_le_one.1 once p.id
  simp only [jobs, hws, List.flatMap_append, List.flatMap_cons, Worker.ids, List.count_append,
    List.count_cons_self, List.count_nil] at counts
  have seen : ∀ ids : List PeerId, p.id ∈ ids → 0 < ids.count p.id :=
    fun _ => List.count_pos_iff.2
  rw [mem_pending] at hq
  simp only [hset, List.flatMap_append, List.flatMap_cons, Worker.peers, List.nil_append,
    List.mem_append] at hq
  rcases hq with hq | hq | hq | hq | hq
  · have := seen _ (List.mem_map.2 ⟨q, hq, hid⟩)
    omega
  · have := seen _ (List.mem_map.2 ⟨q, hq, hid⟩)
    omega
  · have := seen _ (List.mem_map.2 ⟨q, hq, hid⟩)
    omega
  · have := seen _ (hid ▸ ids_of_peers hq)
    omega
  · have := seen _ (hid ▸ ids_of_peers hq)
    omega

/-- A peer that waits on the queue or is tried is in flight. -/
theorem mem_inFlight_of_handedOver (hm : Balanced c.settings m) {q : Peer}
    (hq : q ∈ m.queue ++ m.workers.flatMap Worker.peers) : q.id ∈ m.inFlight := by
  refine hm.inFlight.mem_iff.2 (List.mem_append_right _ ?_)
  rcases List.mem_append.1 hq with hq | hq
  · exact List.mem_append_left _ (List.mem_map_of_mem hq)
  · exact List.mem_append_right _ (ids_of_peers hq)

/-! ## Every step keeps what is known -/

theorem fresh_start (c : Context) (store : PeerStore) :
    Fresh c .empty (fresh c.settings store) where
  listed := nofun
  due := by simp [fresh, Selector.marking, Selector.candidates]
  current := by simp [fresh, pending, Selector.marking, Selector.candidates, Worker.peers]
  storedAt := nofun

/-- What a history says of lists, choices and outcomes. -/
def History.seen (h : History) : Nat × List PeerId × List PeerId × (PeerId → Option Nat) :=
  (h.listedAt, h.concluded, h.outdated, h.storedAt)

/-- What is known stays known while stored peers stay as they are and no other peers are chosen. -/
theorem fresh_of_seen_eq {h' : History} (hf : Fresh c h m) (hseen : h'.seen = h.seen)
    (hstore : ∀ id p, m.store.registry.find? id = some p → m'.store.registry.find? id = some p)
    (hlisted : ∀ wanted stale, m'.selector = .listed wanted stale →
      m.selector = .listed wanted stale)
    (hchosen : m'.selector.marking ++ m'.selector.candidates ⊆
      m.selector.marking ++ m.selector.candidates)
    (hpending : m'.pending ⊆ m.pending) : Fresh c h' m' := by
  obtain ⟨listedAt, concluded, outdated, storedAt⟩ := h'
  cases hseen
  refine ⟨fun wanted stale hs q hq => ?_, fun q hq => hf.due q (hchosen hq),
    fun q hq hid => hstore _ _ (hf.current q (hpending hq) hid), fun id t ht => ?_⟩
  · obtain ⟨hdue, hcurrent⟩ := hf.listed wanted stale (hlisted _ _ hs) q hq
    exact ⟨hdue, fun hid => hstore _ _ (hcurrent hid)⟩
  · obtain ⟨q, hq, hlast⟩ := hf.storedAt id t ht
    exact ⟨q, hstore _ _ hq, hlast⟩

/-- A worker that moves on, and tries no other peer, leaves no other peers pending. -/
theorem pending_set_subset {i : Nat} {w' : Worker} (hw' : w'.peers = []) :
    ({ m with workers := m.workers.set i w' } : Machine).pending ⊆ m.pending := by
  intro q hq
  rw [mem_pending] at hq ⊢
  rcases hq with hq | hq | hq | hq
  · exact .inl hq
  · exact .inr (.inl hq)
  · exact .inr (.inr (.inl hq))
  · rcases mem_peers_set hq with hq | hq
    · exact .inr (.inr (.inr hq))
    · rw [hw'] at hq
      cases hq

/-- What is listed, if anything is, is known as it is listed. -/
theorem fresh_list {wanted limit now : Nat} {result : Except StoreError (List Peer)}
    {store : PeerStore} {selector : Selector} (hf : Fresh c h m)
    (hs : m.selector = .counted wanted limit)
    (hlist : m.store.listStale now c.settings.staleAfter limit = (result, store))
    (hnone : selector.marking ++ selector.candidates = [])
    (hlisted : ∀ wanted stale, selector = .listed wanted stale → result = .ok stale) :
    Fresh c (h.after c m (.list now)) { m with store, selector } := by
  have same : store.registry = m.store.registry := by
    have := PeerStore.registry_listStale now c.settings.staleAfter limit m.store
    rwa [hlist] at this
  refine ⟨fun wanted stale hselector q hq => ?_, fun q hq => ?_, fun q hq hid => ?_,
    fun id t ht => ?_⟩
  · rw [hlisted _ _ hselector] at hlist
    obtain ⟨hstored, hold⟩ := PeerStore.mem_of_listStale hlist hq
    exact ⟨hold, fun _ => by rw [same, hstored]⟩
  · simp [hnone] at hq
  · rw [same]
    refine hf.current q ?_ hid
    rw [pending, hnone] at hq
    simpa [hs, pending, Selector.marking, Selector.candidates] using hq
  · rw [same]
    exact hf.storedAt id t ht

/-- Of the chosen peers those are known of which no outcome was stored since they were listed. -/
theorem fresh_choose {wanted : Nat} {stale : List Peer} (hm : Balanced c.settings m)
    (hf : Fresh c h m) (hs : m.selector = .listed wanted stale) :
    Fresh c (h.after c m .choose) { m with selector := .offering (m.chosen wanted stale) } := by
  have stale_of_chosen : ∀ q ∈ m.chosen wanted stale, q ∈ stale := fun q hq =>
    (List.mem_filter.1 (List.mem_of_mem_take hq)).1
  have history : h.after c m .choose = h.chose ((m.chosen wanted stale).map Peer.id) := by
    simp only [History.after, hs]
  rw [history]
  refine ⟨by simp, fun q hq => ?_, fun q hq hid => ?_, hf.storedAt⟩
  · simp only [Selector.marking, Selector.candidates, List.nil_append] at hq
    exact (hf.listed wanted stale hs q (stale_of_chosen q hq)).1
  · simp only [History.chose, List.mem_append, List.mem_filter, decide_eq_true_eq, not_or,
      not_and] at hid
    rw [mem_pending] at hq
    simp only [Selector.marking, Selector.candidates, List.not_mem_nil, false_or] at hq
    rcases hq with hq | hq
    · -- a peer that is chosen now
      exact (hf.listed wanted stale hs q (stale_of_chosen q hq)).2 (hid.2 (List.mem_map_of_mem hq))
    · -- a peer that was chosen before, and is in flight
      have flying := mem_inFlight_of_handedOver hm (List.mem_append.2 hq)
      have other : q.id ∉ (m.chosen wanted stale).map Peer.id := fun hchosen =>
        (List.nodup_append.1 (nodup_chosen (List.nodup_append.1 hm.nodup).1
          (hm.listed wanted stale hs))).2.2 q.id flying q.id hchosen rfl
      exact hf.current q (mem_pending.2 (.inr (.inr hq))) fun hold => hid.1 hold other

/-- An outcome that is stored concerns no peer that is still pending. -/
theorem fresh_settle {i now : Nat} {verdict : Verdict} {p : Peer} (hm : Balanced c.settings m)
    (hf : Fresh c h m) (hw : m.workers[i]? = some (.probing p)) :
    Fresh c (h.after c m (.settle i now verdict)) { m with
      store := (verdict.conclude c.clock c.resolve now p m.store).2
      workers := m.workers.set i (.settled p.id) } := by
  have before : ({ m with workers := m.workers.set i (.settled p.id) } : Machine).pending ⊆
      m.pending := pending_set_subset rfl
  rcases verdict.leaves_conclude c.clock c.resolve now p m.store with
    ⟨hstored, same⟩ | ⟨hstored, hleft, hothers⟩
  · refine fresh_of_seen_eq hf ?_ (fun id q hq => by rw [same, hq]) (fun _ _ => id)
      (List.Subset.refl _) before
    simp only [History.after, hw, hstored, Bool.false_eq_true, if_false]
  · have history : h.after c m (.settle i now verdict) =
        h.concludedWith now p.id (verdict.result c.clock c.resolve now p) := by
      simp only [History.after, hw, hstored, if_true]
    rw [history]
    refine ⟨fun wanted stale hs q hq => ?_, hf.due, fun q hq hid => ?_, fun id t ht => ?_⟩
    · obtain ⟨hdue, hcurrent⟩ := hf.listed wanted stale hs q hq
      refine ⟨hdue, fun hid => ?_⟩
      simp only [History.concludedWith, List.mem_cons, not_or] at hid
      rw [hothers q.id hid.1, hcurrent hid.2]
    · rw [hothers q.id (id_ne_of_tried hm hw hq)]
      exact hf.current q (before hq) hid
    · simp only [History.concludedWith] at ht
      split at ht
      · rename_i hid
        obtain ⟨q, hq, rfl⟩ := Option.map_eq_some_iff.1 ht
        exact ⟨q, by rw [hid, hleft, hq], Verdict.lastUpdated_result hstored hq⟩
      · rename_i hid
        obtain ⟨q, hq, hlast⟩ := hf.storedAt id t ht
        exact ⟨q, by rw [hothers id hid, hq], hlast⟩

/-- A step keeps every chosen peer as it is stored, unless it is outdated. -/
theorem fresh_makes {a : Action} (hm : Balanced c.settings m) (hf : Fresh c h m)
    (hmakes : Makes c m a m') : Fresh c (h.after c m a) m' := by
  cases hmakes with
  | create p =>
    exact fresh_of_seen_eq hf rfl (fun _ _ => PeerStore.find?_create_of_some p) (fun _ _ => id)
      (List.Subset.refl _) (List.Subset.refl _)
  | outage | shutDown =>
    exact fresh_of_seen_eq hf rfl (fun _ _ => id) (fun _ _ => id) (List.Subset.refl _)
      (List.Subset.refl _)
  | report =>
    refine fresh_of_seen_eq hf rfl (fun id p hp => ?_) (fun _ _ => id) (List.Subset.refl _)
      (List.Subset.refl _)
    rw [PeerStore.registry_viewAll, hp]
  | begin hs | count hs =>
    refine fresh_of_seen_eq hf rfl (fun _ _ => id) (by simp) ?_ ?_ <;>
      simp [pending, hs, Selector.marking, Selector.candidates]
  | list hs hlist =>
    refine fresh_list hf hs hlist rfl ?_
    rintro _ _ ⟨⟩
    rfl
  | listRefused hs hlist => exact fresh_list hf hs hlist rfl (by simp)
  | choose hs => exact fresh_choose hm hf hs
  | acquire hs | mark hs =>
    refine fresh_of_seen_eq hf rfl (fun _ _ => id) (by simp) ?_ ?_ <;>
      simp [pending, hs, Selector.marking, Selector.candidates]
  | @send p rest hs =>
    have seen : (h.after c m .send).seen = h.seen := by
      simp only [History.after, hs]
      rfl
    refine fresh_of_seen_eq hf seen (fun _ _ => id) (by simp) ?_ ?_
    · simp [hs, Selector.marking, Selector.candidates]
    · intro q hq
      rw [mem_pending] at hq ⊢
      simp only [hs, Selector.marking, Selector.candidates, List.mem_append, List.mem_singleton,
        List.not_mem_nil, false_or] at hq ⊢
      tauto
  | finish hs | abandon hs | close hs =>
    refine fresh_of_seen_eq hf rfl (fun _ _ => id) (by simp) ?_ ?_ <;>
      simp [pending, hs, Selector.marking, Selector.candidates]
  | @receive i p queue hw hq =>
    have seen : (h.after c m (.receive i)).seen = h.seen := by
      simp only [History.after, hq]
      rfl
    refine fresh_of_seen_eq hf seen (fun _ _ => id) (fun _ _ => id) (List.Subset.refl _) ?_
    intro q hpending
    rw [mem_pending] at hpending ⊢
    rw [hq, List.mem_cons]
    rcases hpending with hmarked | hcandidate | hqueue | hworker
    · exact .inl hmarked
    · exact .inr (.inl hcandidate)
    · exact .inr (.inr (.inl (.inr hqueue)))
    · rcases mem_peers_set hworker with hold | hnew
      · exact .inr (.inr (.inr hold))
      · exact .inr (.inr (.inl (.inl (List.mem_singleton.1 hnew))))
  | settle hw => exact fresh_settle hm hf hw
  | leave hw | release hw | retire hw =>
    exact fresh_of_seen_eq hf rfl (fun _ _ => id) (fun _ _ => id) (List.Subset.refl _)
      (pending_set_subset rfl)

/-- A send that fails would leave nothing new to know. -/
theorem fresh_putBack (hf : Fresh c h m) (hput : m.putBack = some m') : Fresh c h m' := by
  rw [putBack.eq_def] at hput
  split at hput
  · rename_i p rest hs
    cases hput
    refine fresh_of_seen_eq hf rfl (fun _ _ => id) (by simp) ?_ ?_ <;>
      simp [pending, hs, Selector.marking, Selector.candidates]
  · cases hput

variable {store : PeerStore}

/-- Nobody but the keeper and those who store discovered peers writes to the store. -/
abbrev nobody : PeerStore → PeerStore → Prop := fun _ _ => False

/-- In a run of which nobody else writes to the store, every chosen peer is as it is stored, unless
it is outdated. -/
theorem fresh_run (hrun : Run nobody c (fresh c.settings store) h m) : Fresh c h m := by
  induction hrun with
  | start => exact fresh_start c store
  | step hrun hstep ih => exact fresh_makes (balanced_run hrun) ih (makes_of_step hstep)
  | write _ hwrite => exact hwrite.elim
  | putBack _ hput ih => exact fresh_putBack ih hput

/-! ## What follows -/

/-- A peer that is handed over was stale when it was listed, and is stored like this unless it is
outdated. -/
theorem exists_of_send (hf : Fresh c h m) (hstep : m.step c .send = some m') :
    ∃ p rest, m.selector = .marked p rest ∧ m'.queue = m.queue ++ [p] ∧ Due c h p ∧
      (p.id ∉ h.outdated → m.store.registry.find? p.id = some p ∧
        ∀ t, h.storedAt p.id = some t → t < h.listedAt - c.settings.staleAfter) := by
  cases makes_of_step hstep with
  | @send p rest hs =>
    have hmarked : p ∈ m.selector.marking := by simp [hs, Selector.marking]
    have hdue := hf.due p (List.mem_append_left _ hmarked)
    refine ⟨p, rest, hs, rfl, hdue, fun hid => ?_⟩
    have hstored := hf.current p (mem_pending.2 (.inl hmarked)) hid
    refine ⟨hstored, fun t ht => ?_⟩
    obtain ⟨q, hq, hlast⟩ := hf.storedAt p.id t ht
    cases hstored.symm.trans hq
    exact hlast ▸ hdue

/-- A peer whose outcome is stored is stored as it was handed over, unless it is outdated, so that the
outcome changes what it was made from. -/
theorem find?_of_settle (hf : Fresh c h m) {i now : Nat} {verdict : Verdict} {p : Peer}
    (hstep : m.step c (.settle i now verdict) = some m')
    (hw : m.workers[i]? = some (.probing p)) (hid : p.id ∉ h.outdated) :
    m.store.registry.find? p.id = some p ∧
      m'.store.registry.find? p.id =
        (if (verdict.conclude c.clock c.resolve now p m.store).1.isStored then
          verdict.result c.clock c.resolve now p else some p) ∧
      ∀ id, id ≠ p.id → m'.store.registry.find? id = m.store.registry.find? id := by
  have htried : p ∈ m.pending :=
    mem_pending.2 (.inr (.inr (.inr (List.mem_flatMap.2
      ⟨_, List.mem_of_getElem? hw, List.mem_singleton.2 rfl⟩))))
  have hstored := hf.current p htried hid
  refine ⟨hstored, ?_⟩
  cases makes_of_step hstep with
  | settle hw' =>
    cases hw.symm.trans hw'
    rcases verdict.leaves_conclude c.clock c.resolve now p m.store with
      ⟨hrefused, same⟩ | ⟨hdone, hleft, hothers⟩
    · rw [hrefused, same]
      exact ⟨hstored, fun _ _ => rfl⟩
    · rw [hdone, if_pos rfl]
      exact ⟨hleft, hothers⟩

/-- In every state that a run can reach in which nobody else writes to the store: A peer that is
handed over was stale when it was listed. Unless an outcome of it was stored between that list and
the choice among the listed, it is handed over as it is stored, and the last of its outcomes is older
than the window too. When its outcome is stored, it is still stored like this, so that the outcome is
put in the place of the record that it was made from, and changes nothing else. -/
theorem run_fresh (hrun : Run nobody c (fresh c.settings store) h m) :
    (∀ m', m.step c .send = some m' → ∃ p rest, m.selector = .marked p rest ∧
      m'.queue = m.queue ++ [p] ∧ Due c h p ∧
      (p.id ∉ h.outdated → m.store.registry.find? p.id = some p ∧
        ∀ t, h.storedAt p.id = some t → t < h.listedAt - c.settings.staleAfter)) ∧
    (∀ i now verdict m' p, m.step c (.settle i now verdict) = some m' →
      m.workers[i]? = some (.probing p) → p.id ∉ h.outdated →
      m.store.registry.find? p.id = some p ∧
        m'.store.registry.find? p.id =
          (if (verdict.conclude c.clock c.resolve now p m.store).1.isStored then
            verdict.result c.clock c.resolve now p else some p) ∧
        ∀ id, id ≠ p.id → m'.store.registry.find? id = m.store.registry.find? id) := by
  have hf := fresh_run hrun
  refine ⟨fun m' hstep => exists_of_send hf hstep, ?_⟩
  intro i now verdict m' p hstep hw hid
  exact find?_of_settle hf hstep hw hid

/-- The only peer is stale, and about to be handed over as it is stored. -/
theorem run_fresh_marked :
    Run nobody Solo.context Solo.start Solo.marked.1 Solo.marked.2 ∧
      Solo.peer.id ∉ Solo.marked.1.outdated ∧
      Due Solo.context Solo.marked.1 Solo.peer ∧
      Solo.marked.2.store.registry.find? Solo.peer.id = some Solo.peer := by
  have hrun := Solo.run_marked nobody
  have hid : Solo.peer.id ∉ Solo.marked.1.outdated := by decide
  obtain ⟨p, rest, hs, -, hdue, hcurrent⟩ := (run_fresh hrun).1 _ rfl
  obtain ⟨rfl, rfl⟩ : Solo.peer = p ∧ [] = rest := by
    injection (show Solo.marked.2.selector = .marked Solo.peer [] from rfl).symm.trans hs with h h'
    exact ⟨h, h'⟩
  exact ⟨hrun, hid, hdue, (hcurrent hid).1⟩

/-! ## A peer chosen in the gap, and a peer whose outcome is refused -/

namespace Solo

/-- The peer is tried, and the selector is about to ask for stale peers again. -/
def tried : History × Machine :=
  performing context marked [.send, .finish, .receive 0, .begin, .count]

/-- After the peer has been listed again, its failure is stored and it leaves; then the selector
chooses. -/
def gap : History × Machine :=
  performing context (tried.1.after context tried.2 (.list 100), told tried.2)
    [.settle 0 101 .exhausted, .leave 0, .choose, .release 0, .acquire, .mark]

theorem run_gap (others : PeerStore → PeerStore → Prop) : Run others context start gap.1 gap.2 :=
  Run.performing (.step (Run.performing (run_marked others) _) (step_list rfl rfl (by decide))) _

/-- The store has refused the failure of the peer, and the selector is about to ask for stale peers
again. -/
def refused : History × Machine :=
  performing context marked [.send, .finish, .receive 0, .outage [.update],
    .settle 0 100 .exhausted, .leave 0, .release 0, .begin, .count]

/-- The peer has been listed again, within the same second, and is in flight again. -/
def again : History × Machine :=
  performing context (refused.1.after context refused.2 (.list 100), told refused.2)
    [.choose, .acquire, .mark]

theorem run_again (others : PeerStore → PeerStore → Prop) :
    Run others context start again.1 again.2 :=
  Run.performing (.step (Run.performing (run_marked others) _) (step_list rfl rfl (by decide))) _

end Solo

/-- A peer is handed over with a record that is not the stored one: that has been written after the
peer was listed, and before it was chosen. The next failure is put in the place of the first one, so
that of two failures one is lost. And a peer whose outcome is refused is handed over again within
the same second, though peers are fresh for ten. -/
theorem outdated_handed_over :
    (Run nobody Solo.context Solo.start Solo.gap.1 Solo.gap.2 ∧
      Solo.gap.2.selector = .marked Solo.peer [] ∧
      (∃ m', Solo.gap.2.step Solo.context .send = some m') ∧
      Solo.gap.2.store.registry.find? Solo.peer.id = some (Solo.peer.demoted 101) ∧
      Solo.peer.demoted 101 ≠ Solo.peer ∧
      (performing Solo.context Solo.gap
          [.send, .receive 0, .settle 0 102 .exhausted]).2.store.registry.find? Solo.peer.id =
        some (Solo.peer.demoted 102)) ∧
    Run nobody Solo.context Solo.start Solo.again.1 Solo.again.2 ∧
      Solo.again.2.selector = .marked Solo.peer [] ∧
      (∃ m', Solo.again.2.step Solo.context .send = some m') ∧
      Solo.again.1.sent = [Solo.peer] ∧
      Solo.marked.1.listedAt = 100 ∧ Solo.again.1.listedAt = 100 :=
  ⟨⟨Solo.run_gap nobody, rfl, ⟨_, rfl⟩, rfl, by decide, rfl⟩,
    Solo.run_again nobody, rfl, ⟨_, rfl⟩, rfl, rfl, rfl⟩

end PeerCensus.Keeper
