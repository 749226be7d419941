import PeerCensus.Proofs.Keeper.Run

/-!
# Every stale peer can be selected

A selection hands over the first of the stale peers, so a peer may have to wait for its turn. While
the store answers, the peers before it can be tried one after another, each of which is then not
stale any more, until it is the first. So a run can hand over any stale peer, unless that was left in
flight when the run began.

Results:
* `exists_handedOver`, `exists_tried`: the first of the chosen peers can be handed over and tried.
* `selected_ne_nil`: if a peer is due, some peer is chosen.
* `exists_sent`: a run can hand over any stale peer that was not left in flight.
-/

namespace PeerCensus.Keeper

open Machine

/-! ## The states between -/

/-- The keeper at the beginning of a run to which the peers `lost` were left. -/
def Machine.opening (s : Settings) (store : PeerStore) (lost : List PeerId) : Machine :=
  { fresh s store with inFlight := lost }

/-- This keeper with peers chosen. -/
def Machine.offeringAll (s : Settings) (store : PeerStore) (lost : List PeerId)
    (chosen : List Peer) : Machine :=
  { opening s store lost with selector := .offering chosen }

/-- This keeper with the peer `p` on the queue. -/
def Machine.queued (s : Settings) (store : PeerStore) (lost : List PeerId) (p : Peer)
    (rest : List Peer) : Machine :=
  { opening s store lost with
    inFlight := p.id :: lost
    permits := s.capacity - 1
    queue := [p]
    selector := .offering rest }

variable {others : PeerStore → PeerStore → Prop} {c : Context} {start m : Machine} {h : History}
  {store : PeerStore} {lost : List PeerId} {p : Peer} {rest : List Peer}

theorem capacity_pos (s : Settings) : 0 < s.capacity := Nat.le_max_right ..

/-- The first of the chosen peers can be handed over. -/
theorem exists_handedOver
    (hrun : Run others c start h (offeringAll c.settings store lost (p :: rest)))
    (hp : p.id ∉ lost) :
    ∃ h', Run others c start h' (queued c.settings store lost p rest) ∧
      h'.sent = h.sent ++ [p] := by
  have free := capacity_pos c.settings
  have acquire : (offeringAll c.settings store lost (p :: rest)).step c .acquire =
      some { opening c.settings store lost with
        permits := c.settings.capacity - 1
        selector := .holding p rest } := by
    simp [step, Machine.acquire, offeringAll, opening, fresh, free]
  have mark : { opening c.settings store lost with
        permits := c.settings.capacity - 1
        selector := .holding p rest : Machine }.step c .mark =
      some { opening c.settings store lost with
        inFlight := p.id :: lost
        permits := c.settings.capacity - 1
        selector := .marked p rest } := by
    simp [step, Machine.mark, opening, hp]
  have send : { opening c.settings store lost with
        inFlight := p.id :: lost
        permits := c.settings.capacity - 1
        selector := .marked p rest : Machine }.step c .send =
      some (queued c.settings store lost p rest) := by
    simp [step, Machine.send, queued, opening, fresh, free]
  exact ⟨_, ((hrun.step acquire).step mark).step send, rfl⟩

/-- The first worker of such a keeper, at work on a peer, with `inFlight` in flight. -/
def Machine.working (s : Settings) (store : PeerStore) (inFlight : List PeerId) (rest : List Peer)
    (w : Worker) : Machine :=
  { opening s store inFlight with
    permits := s.capacity - 1
    selector := .offering rest
    workers := w :: List.replicate (s.capacity - 1) .idle }

/-- A peer on the queue can be tried in vain, and what comes of that can be stored. -/
theorem exists_tried (now : Nat) (hrun : Run others c start h (queued c.settings store lost p rest)) :
    ∃ h', Run others c start h' (offeringAll c.settings
      (Verdict.exhausted.conclude c.clock c.resolve now p store).2 lost rest) ∧
      h'.sent = h.sent := by
  have free := capacity_pos c.settings
  have workers : List.replicate c.settings.capacity Worker.idle =
      .idle :: List.replicate (c.settings.capacity - 1) .idle := by
    rw [← List.replicate_succ, Nat.sub_add_cancel free]
  let store' := (Verdict.exhausted.conclude c.clock c.resolve now p store).2
  have receive : (queued c.settings store lost p rest).step c (.receive 0) =
      some (working c.settings store (p.id :: lost) rest (.probing p)) := by
    simp [step, Machine.receive, setWorker, queued, working, opening, fresh, workers]
  have settle : (working c.settings store (p.id :: lost) rest (.probing p)).step c
      (.settle 0 now .exhausted) =
      some (working c.settings store' (p.id :: lost) rest (.settled p.id)) := by
    simp [step, Machine.settle, setWorker, working, opening, fresh, store']
  have leave : (working c.settings store' (p.id :: lost) rest (.settled p.id)).step c (.leave 0) =
      some (working c.settings store' lost rest (.departing p.id)) := by
    simp [step, Machine.leave, setWorker, working, opening, fresh]
  have release : (working c.settings store' lost rest (.departing p.id)).step c (.release 0) =
      some (offeringAll c.settings store' lost rest) := by
    show some { opening c.settings store' lost with
      permits := c.settings.capacity - 1 + 1
      selector := .offering rest
      workers := .idle :: List.replicate (c.settings.capacity - 1) .idle } = _
    rw [Nat.sub_add_cancel free, ← workers]
    rfl
  refine ⟨_, (((hrun.step receive).step settle).step leave).step release, ?_⟩
  show (if _ then _ else _ : History).sent = h.sent
  split <;> rfl

/-! ## Peers that are due -/

/-- Whether the peer `p` is stored, stale at the time `now`, and none of `lost`. -/
structure Due (c : Context) (now : Nat) (lost : List PeerId) (store : PeerStore) (p : Peer) : Prop where
  stored : store.registry.find? p.id = some p
  stale : p.lastUpdated < now - c.settings.staleAfter
  notLost : p.id ∉ lost

variable {now : Nat} {store' : PeerStore} {q : Peer}

/-- While the store answers, an outcome for a stored peer is stored. -/
theorem isStored_exhausted (c : Context) (now : Nat) (hup : store.down = [])
    (hq : store.registry.find? q.id = some q) :
    (Verdict.exhausted.conclude c.clock c.resolve now q store).1.isStored = true := by
  have known : (store.registry.find? q.id).isSome = true := by
    rw [hq]
    rfl
  exact (Verdict.isStored_conclude_iff known).2 ⟨_, hup ▸ List.not_mem_nil, rfl⟩

/-- After a peer has been tried, the others that were due are due. -/
theorem due_tried_iff (hup : store.down = []) (hq : Due c now lost store q) (r : Peer) :
    Due c now lost (Verdict.exhausted.conclude c.clock c.resolve now q store).2 r ↔
      r.id ≠ q.id ∧ Due c now lost store r := by
  have hstored := isStored_exhausted c now hup hq.stored
  have left := Verdict.leaves_conclude c.clock c.resolve now q store .exhausted
  rcases left with ⟨hnot, -⟩ | ⟨-, hleft, hothers⟩
  · rw [hstored] at hnot
    cases hnot
  constructor
  · intro hr
    have other : r.id ≠ q.id := by
      intro same
      have found := hr.stored
      rw [same, hleft] at found
      have := Verdict.lastUpdated_result hstored found
      have := hr.stale
      omega
    refine ⟨other, ?_, hr.stale, hr.notLost⟩
    rw [← hothers r.id other]
    exact hr.stored
  · rintro ⟨other, hr⟩
    refine ⟨?_, hr.stale, hr.notLost⟩
    rw [hothers r.id other]
    exact hr.stored

/-! ## Selections -/

/-- The peers that a selection chooses at the time `now`. -/
def selected (c : Context) (now : Nat) (lost : List PeerId) (store : PeerStore) : List Peer :=
  (opening c.settings store lost).chosen c.settings.capacity
    (store.registry.listStale now c.settings.staleAfter (c.settings.capacity + lost.length))

/-- A selection can be made. -/
theorem exists_offering (now : Nat) (hrun : Run others c start h (opening c.settings store lost))
    (hup : store.down = []) :
    ∃ h' store', Run others c start h' (offeringAll c.settings store' lost
        (selected c now lost store)) ∧
      h'.sent = h.sent ∧ store'.registry = store.registry ∧ store'.down = [] := by
  have one : max c.settings.capacity 1 = c.settings.capacity :=
    Nat.max_eq_left (capacity_pos c.settings)
  let stale := store.registry.listStale now c.settings.staleAfter
    (c.settings.capacity + lost.length)
  let store' : PeerStore := { store with log := .listStale :: store.log }
  have begins : (opening c.settings store lost).step c .begin =
      some { opening c.settings store lost with selector := .sized c.settings.capacity } := by
    simp [step, Machine.begin, opening, fresh, one]
  have count : { opening c.settings store lost with
        selector := .sized c.settings.capacity : Machine }.step c .count =
      some { opening c.settings store lost with
        selector := .counted c.settings.capacity (c.settings.capacity + lost.length) } := by
    simp [step, Machine.count, opening]
  have list : { opening c.settings store lost with
        selector := .counted c.settings.capacity (c.settings.capacity + lost.length)
        : Machine }.step c (.list now) =
      some { opening c.settings store' lost with
        selector := .listed c.settings.capacity stale } := by
    simp [step, Machine.list, opening, fresh, PeerStore.listStale,
      PeerStore.answer_of_up, hup, store', stale]
  have choose : { opening c.settings store' lost with
        selector := .listed c.settings.capacity stale : Machine }.step c .choose =
      some (offeringAll c.settings store' lost (selected c now lost store)) := by
    rfl
  exact ⟨_, store', (((hrun.step begins).step count).step list).step choose, rfl, rfl, hup⟩

/-- A selection chooses peers that are due, each once. -/
theorem due_of_selected {r : Peer} (hr : r ∈ selected c now lost store) : Due c now lost store r := by
  obtain ⟨listed, free⟩ := List.mem_filter.1 (List.mem_of_mem_take hr)
  obtain ⟨stored, stale⟩ := Registry.mem_listStale listed
  exact ⟨stored, stale, by simpa [opening] using free⟩

theorem nodup_selected : ((selected c now lost store).map Peer.id).Nodup := by
  have part : (selected c now lost store).Sublist (store.registry.listStale now
      c.settings.staleAfter (c.settings.capacity + lost.length)) :=
    (List.take_sublist ..).trans List.filter_sublist
  exact (Registry.nodup_listStale ..).sublist (part.map _)

/-- If a peer is due, some peer is chosen. -/
theorem selected_ne_nil (hp : Due c now lost store p) : selected c now lost store ≠ [] := by
  have free := capacity_pos c.settings
  obtain ⟨q, hq, hlost⟩ := Registry.exists_listed (List.mem_of_find?_eq_some hp.stored) hp.stale
    hp.notLost (show lost.length < c.settings.capacity + lost.length by omega)
  have passed : q ∈ (store.registry.listStale now c.settings.staleAfter
      (c.settings.capacity + lost.length)).filter fun p => !lost.contains p.id :=
    List.mem_filter.2 ⟨hq, by simpa using hlost⟩
  unfold selected Machine.chosen
  rw [ne_eq, List.take_eq_nil_iff, not_or]
  exact ⟨Nat.ne_of_gt free, List.ne_nil_of_mem passed⟩

/-! ## One peer after another -/

/-- A run in the middle of a selection, where `p` is due, and so are the chosen peers. Only peers in
`todo` are. -/
structure Selecting (others : PeerStore → PeerStore → Prop) (c : Context) (start : Machine) (now : Nat)
    (lost : List PeerId) (p : Peer) (todo : List PeerId) (chosen : List Peer) (h : History)
    (store : PeerStore) : Prop where
  run : Run others c start h (offeringAll c.settings store lost chosen)
  up : store.down = []
  due : Due c now lost store p
  dueOfMem : ∀ r ∈ chosen, Due c now lost store r
  once : (chosen.map Peer.id).Nodup
  covered : ∀ r, Due c now lost store r → r.id ∈ todo

/-- What is stored under an id is one peer. -/
theorem Due.eq_of_id (hp : Due c now lost store p) (hq : Due c now lost store q)
    (h : p.id = q.id) : p = q := by
  have found := hp.stored
  rw [h, hq.stored] at found
  exact (Option.some.inj found).symm

variable {todo : List PeerId}

/-- The first of the chosen peers is the one that is handed over, or it is tried and there is one peer
less to do. -/
theorem Selecting.tried (hs : Selecting others c start now lost p todo (q :: rest) h store) :
    (∃ h' m', Run others c start h' m' ∧ p ∈ h'.sent) ∨
      ∃ todo' h' store', Selecting others c start now lost p todo' rest h' store' ∧
        todo'.length < todo.length := by
  obtain ⟨hq, hrest⟩ := List.forall_mem_cons.1 hs.dueOfMem
  obtain ⟨hfirst, hnodup⟩ := List.nodup_cons.1 hs.once
  obtain ⟨h₁, hrun₁, hsent⟩ := exists_handedOver hs.run hq.notLost
  by_cases same : p.id = q.id
  · obtain rfl := hs.due.eq_of_id hq same
    refine .inl ⟨h₁, _, hrun₁, ?_⟩
    rw [hsent]
    exact List.mem_append_right _ (List.mem_singleton.2 rfl)
  · obtain ⟨h₂, hrun₂, -⟩ := exists_tried now hrun₁
    have due (r : Peer) := due_tried_iff hs.up hq r
    refine .inr ⟨todo.erase q.id, h₂, _, ⟨hrun₂, ?_, (due p).2 ⟨same, hs.due⟩, ?_, hnodup, ?_⟩, ?_⟩
    · rw [Verdict.down_conclude, hs.up]
    · intro r hr
      refine (due r).2 ⟨fun other => hfirst ?_, hrest r hr⟩
      exact other ▸ List.mem_map_of_mem hr
    · intro r hr
      obtain ⟨other, hr⟩ := (due r).1 hr
      exact (List.mem_erase_of_ne other).2 (hs.covered r hr)
    · have inside := hs.covered q hq
      have := List.length_pos_of_mem inside
      rw [List.length_erase_of_mem inside]
      omega

/-- From the beginning of a selection peers can be chosen. -/
theorem exists_selecting (hrun : Run others c start h (opening c.settings store lost))
    (hup : store.down = []) (hp : Due c now lost store p)
    (htodo : ∀ r, Due c now lost store r → r.id ∈ todo) :
    ∃ h' store' q rest, Selecting others c start now lost p todo (q :: rest) h' store' := by
  obtain ⟨h', store', hrun', -, hregistry, hup'⟩ := exists_offering now hrun hup
  obtain ⟨q, rest, hchosen⟩ := List.exists_cons_of_ne_nil (selected_ne_nil hp)
  have due (r : Peer) : Due c now lost store' r ↔ Due c now lost store r := by
    constructor
    · intro hr
      exact ⟨hregistry ▸ hr.stored, hr.stale, hr.notLost⟩
    · intro hr
      exact ⟨hregistry.symm ▸ hr.stored, hr.stale, hr.notLost⟩
  refine ⟨h', store', q, rest, hchosen ▸ hrun', hup', (due p).2 hp, ?_, ?_, ?_⟩
  · intro r hr
    exact (due r).2 (due_of_selected (hchosen ▸ hr))
  · exact hchosen ▸ nodup_selected
  · intro r hr
    exact htodo r ((due r).1 hr)

/-- Wherever the selector is in a selection, a peer that is due can be handed over. With each peer that
is tried there is one less to do, and when all that were chosen have been tried, others are. -/
theorem Selecting.exists_sent {chosen : List Peer}
    (hs : Selecting others c start now lost p todo chosen h store) :
    ∃ h' m', Run others c start h' m' ∧ p ∈ h'.sent := by
  induction hn : todo.length using Nat.strongRecOn generalizing todo chosen h store with
  | ind n ih =>
    -- in either case some peer is the first of those that are chosen
    have first : ∃ h' store' q rest,
        Selecting others c start now lost p todo (q :: rest) h' store' := by
      cases chosen with
      | nil =>
        have finish : (offeringAll c.settings store lost []).step c .finish =
            some (opening c.settings store lost) := rfl
        exact exists_selecting (hs.run.step finish) hs.up hs.due hs.covered
      | cons q rest => exact ⟨h, store, q, rest, hs⟩
    obtain ⟨h₁, store₁, q, rest, hs₁⟩ := first
    rcases hs₁.tried with sent | ⟨todo', h₂, store₂, hs₂, hless⟩
    · exact sent
    · exact ih todo'.length (hn ▸ hless) hs₂ rfl

/-- While the store answers, a run can hand over any stale peer that was not left in flight. -/
theorem exists_sent (others : PeerStore → PeerStore → Prop) (hup : store.down = [])
    (hp : Due c now lost store p) :
    ∃ h m, Run others c (opening c.settings store lost) h m ∧ p ∈ h.sent := by
  have htodo (r : Peer) (hr : Due c now lost store r) : r.id ∈ store.registry.peers.map Peer.id :=
    List.mem_map_of_mem (List.mem_of_find?_eq_some hr.stored)
  obtain ⟨h, store', q, rest, hs⟩ := exists_selecting (.start) hup hp htodo
  exact hs.exists_sent

end PeerCensus.Keeper
