import PeerCensus.Keeper.Machine
import PeerCensus.Proofs.Keeper.Outcome

/-!
# Runs of the keeper

A run is any sequence of steps of the selector and the workers, with others writing to the store
between them. What a run has done beyond what the machine itself remembers is written down beside
it: which peers were handed over and who took them, when stale peers were last asked for, and which
outcomes were stored too late for a selection to see.

Results:
* `makes_of_step`, `Machine.perform_eq`: all that a step can do.
* `Run.performing`: what some steps lead to can be reached.
-/

namespace PeerCensus.Keeper

/-! ## Steps -/

/-- All that a step of the keeper can do: the places of the parties in which it can be made, and the
machine after it. -/
inductive Makes (c : Context) (m : Machine) : Action → Machine → Prop
  | create (p : Peer) : Makes c m (.create p) { m with store := (m.store.create p).2 }
  | outage (down : List StoreCall) :
    Makes c m (.outage down) { m with store := { m.store with down } }
  | shutDown : Makes c m .shutDown { m with shutdown := true }
  | report : m.selector = .idle → Makes c m .report { m with store := m.store.viewAll.2 }
  | begin : m.selector = .idle → Makes c m .begin { m with selector := .sized (max m.permits 1) }
  | count {wanted : Nat} : m.selector = .sized wanted →
    Makes c m .count { m with selector := .counted wanted (wanted + m.inFlight.length) }
  | list {wanted limit now : Nat} {stale : List Peer} {store : PeerStore} :
    m.selector = .counted wanted limit →
    m.store.listStale now c.settings.staleAfter limit = (.ok stale, store) →
    Makes c m (.list now) { m with store, selector := .listed wanted stale }
  | listRefused {wanted limit now : Nat} {e : StoreError} {store : PeerStore} :
    m.selector = .counted wanted limit →
    m.store.listStale now c.settings.staleAfter limit = (.error e, store) →
    Makes c m (.list now) { m with store, selector := .idle }
  | choose {wanted : Nat} {stale : List Peer} : m.selector = .listed wanted stale →
    Makes c m .choose { m with selector := .offering (m.chosen wanted stale) }
  | acquire {p : Peer} {rest : List Peer} : m.selector = .offering (p :: rest) → 0 < m.permits →
    Makes c m .acquire { m with permits := m.permits - 1, selector := .holding p rest }
  | mark {p : Peer} {rest : List Peer} : m.selector = .holding p rest →
    Makes c m .mark { m with inFlight := m.inFlight.insert p.id, selector := .marked p rest }
  | send {p : Peer} {rest : List Peer} : m.selector = .marked p rest →
    m.queue.length < c.settings.capacity →
    Makes c m .send { m with queue := m.queue ++ [p], selector := .offering rest }
  | finish : m.selector = .offering [] → Makes c m .finish { m with selector := .idle }
  | abandon {p : Peer} {rest : List Peer} : m.selector = .offering (p :: rest) → m.shutdown = true →
    Makes c m .abandon { m with selector := .idle }
  | close : m.selector = .idle → m.shutdown = true →
    Makes c m .close { m with selector := .stopped }
  | receive {i : Nat} {p : Peer} {queue : List Peer} : m.workers[i]? = some .idle →
    m.queue = p :: queue →
    Makes c m (.receive i) { m with queue, workers := m.workers.set i (.probing p) }
  | settle {i now : Nat} {verdict : Verdict} {p : Peer} : m.workers[i]? = some (.probing p) →
    (verdict = .cancelled → m.shutdown = true) →
    Makes c m (.settle i now verdict) { m with
      store := (verdict.conclude c.clock c.resolve now p m.store).2
      workers := m.workers.set i (.settled p.id) }
  | leave {i : Nat} {id : PeerId} : m.workers[i]? = some (.settled id) →
    Makes c m (.leave i) { m with
      inFlight := m.inFlight.erase id
      workers := m.workers.set i (.departing id) }
  | release {i : Nat} {id : PeerId} : m.workers[i]? = some (.departing id) →
    Makes c m (.release i) { m with
      permits := m.permits + 1
      workers := m.workers.set i .idle }
  | retire {i : Nat} : m.workers[i]? = some .idle →
    Makes c m (.retire i) { m with workers := m.workers.set i .stopped }

/-- A step of the machine does what a step can do. -/
theorem makes_of_step {c : Context} {m m' : Machine} {a : Action} (h : m.step c a = some m') :
    Makes c m a m' := by
  cases a with
  | create p => cases h; exact .create p
  | outage down => cases h; exact .outage down
  | shutDown => cases h; exact .shutDown
  | report =>
    simp only [Machine.step, Machine.report, Option.ite_none_right_eq_some] at h
    obtain ⟨hs, ⟨⟩⟩ := h
    exact .report hs
  | begin =>
    simp only [Machine.step, Machine.begin, Option.ite_none_right_eq_some] at h
    obtain ⟨hs, ⟨⟩⟩ := h
    exact .begin hs
  | count =>
    simp only [Machine.step, Machine.count] at h
    split at h
    · rename_i hs
      cases h
      exact .count hs
    · cases h
  | list now =>
    simp only [Machine.step, Machine.list] at h
    split at h
    · rename_i hs
      split at h <;> rename_i hlist <;> cases h
      · exact .list hs hlist
      · exact .listRefused hs hlist
    · cases h
  | choose =>
    simp only [Machine.step, Machine.choose] at h
    split at h
    · rename_i hs
      cases h
      exact .choose hs
    · cases h
  | acquire =>
    simp only [Machine.step, Machine.acquire] at h
    split at h
    · rename_i hs
      simp only [Option.ite_none_right_eq_some] at h
      obtain ⟨hp, ⟨⟩⟩ := h
      exact .acquire hs hp
    · cases h
  | mark =>
    simp only [Machine.step, Machine.mark] at h
    split at h
    · rename_i hs
      cases h
      exact .mark hs
    · cases h
  | send =>
    simp only [Machine.step, Machine.send] at h
    split at h
    · rename_i hs
      simp only [Option.ite_none_right_eq_some] at h
      obtain ⟨hroom, ⟨⟩⟩ := h
      exact .send hs hroom
    · cases h
  | finish =>
    simp only [Machine.step, Machine.finish, Option.ite_none_right_eq_some] at h
    obtain ⟨hs, ⟨⟩⟩ := h
    exact .finish hs
  | abandon =>
    simp only [Machine.step, Machine.abandon] at h
    split at h
    · rename_i hs
      simp only [Option.ite_none_right_eq_some] at h
      obtain ⟨hd, ⟨⟩⟩ := h
      exact .abandon hs hd
    · cases h
  | close =>
    simp only [Machine.step, Machine.close, Option.ite_none_right_eq_some] at h
    obtain ⟨⟨hs, hd⟩, ⟨⟩⟩ := h
    exact .close hs hd
  | receive i =>
    simp only [Machine.step, Machine.receive] at h
    split at h
    · rename_i hw hq
      cases h
      exact .receive hw hq
    · cases h
  | settle i now verdict =>
    simp only [Machine.step, Machine.settle] at h
    split at h
    · rename_i hw
      split at h
      · cases h
      · rename_i hgiven
        cases h
        exact .settle hw fun hv => by simpa [hv] using hgiven
    · cases h
  | leave i =>
    simp only [Machine.step, Machine.leave] at h
    split at h
    · rename_i hw
      cases h
      exact .leave hw
    · cases h
  | release i =>
    simp only [Machine.step, Machine.release] at h
    split at h
    · rename_i hw
      cases h
      exact .release hw
    · cases h
  | retire i =>
    simp only [Machine.step, Machine.retire, Option.ite_none_right_eq_some] at h
    obtain ⟨⟨hw, -⟩, ⟨⟩⟩ := h
    exact .retire hw

/-- A step is made, or it cannot be made and nothing happens. -/
theorem Machine.perform_eq (c : Context) (m : Machine) (a : Action) :
    m.perform c a = m ∨ Makes c m a (m.perform c a) := by
  rw [perform]
  cases h : m.step c a with
  | none => exact .inl rfl
  | some m' => exact .inr (makes_of_step h)

/-! ## Runs -/

/-- What a run has done. -/
structure History where
  /-- The peers that were handed over, in order. -/
  sent : List Peer
  /-- The peers that were taken off the queue, in order, each with the worker that took it. -/
  received : List (Nat × Peer)
  /-- When stale peers were last asked for. -/
  listedAt : Nat
  /-- The peers of which an outcome has been stored since then. -/
  concluded : List PeerId
  /-- The peers that were chosen after an outcome had been stored of which the list did not know. -/
  outdated : List PeerId
  /-- When an outcome was last stored, for each peer that was not removed since. -/
  storedAt : PeerId → Option Nat

namespace History

/-- The history of a run that has done nothing. -/
def empty : History := ⟨[], [], 0, [], [], fun _ => none⟩

/-- The history after some peers have been chosen. -/
def chose (ids : List PeerId) (h : History) : History :=
  { h with outdated := h.outdated.filter (· ∉ ids) ++ ids.filter (· ∈ h.concluded) }

/-- The history after an outcome has been stored, `stored` being the record that it left. -/
def concludedWith (now : Nat) (id : PeerId) (stored : Option Peer) (h : History) : History :=
  { h with
    concluded := id :: h.concluded
    storedAt := fun other => if other = id then stored.map fun _ => now else h.storedAt other }

/-- The history after a step of the machine `m`. -/
def after (c : Context) (m : Machine) (h : History) : Action → History
  | .list now => { h with listedAt := now, concluded := [] }
  | .choose =>
    match m.selector with
    | .listed wanted stale => h.chose ((m.chosen wanted stale).map Peer.id)
    | _ => h
  | .send =>
    match m.selector with
    | .marked p _ => { h with sent := h.sent ++ [p] }
    | _ => h
  | .receive i =>
    match m.queue with
    | p :: _ => { h with received := h.received ++ [(i, p)] }
    | [] => h
  | .settle i now verdict =>
    match m.workers[i]? with
    | some (.probing p) =>
      if (verdict.conclude c.clock c.resolve now p m.store).1.isStored then
        h.concludedWith now p.id (verdict.result c.clock c.resolve now p)
      else h
    | _ => h
  | _ => h

end History

/-- The machine `m` can be reached from `start`, and `h` is what has been done on the way. Between
the steps others may write to the store as `others` says. A send may fail, though it does not as
long as the keeper runs. -/
inductive Run (others : PeerStore → PeerStore → Prop) (c : Context) (start : Machine) :
    History → Machine → Prop
  | start : Run others c start .empty start
  | step {h : History} {m m' : Machine} {a : Action} :
    Run others c start h m → m.step c a = some m' → Run others c start (h.after c m a) m'
  | write {h : History} {m : Machine} {store : PeerStore} :
    Run others c start h m → others m.store store → Run others c start h { m with store }
  | putBack {h : History} {m m' : Machine} :
    Run others c start h m → m.putBack = some m' → Run others c start h m'

/-- The history and the machine after some steps, those left out that cannot be made. -/
def performing (c : Context) (x : History × Machine) (actions : List Action) : History × Machine :=
  actions.foldl (fun x a =>
    match x.2.step c a with
    | some m => (x.1.after c x.2 a, m)
    | none => x) x

/-- What some steps lead to can be reached. -/
theorem Run.performing {others : PeerStore → PeerStore → Prop} {c : Context} {start : Machine}
    {x : History × Machine} (h : Run others c start x.1 x.2) (actions : List Action) :
    Run others c start (performing c x actions).1 (performing c x actions).2 := by
  induction actions generalizing x with
  | nil => exact h
  | cons a actions ih =>
    rw [Keeper.performing, List.foldl_cons]
    refine ih ?_
    split
    · rename_i m hstep
      exact h.step hstep
    · exact h

/-! ## A keeper with one worker and one peer -/

namespace Solo

/-- A peer that has not been tried yet. -/
def peer : Peer where
  id := ⟨"peer"⟩
  nodeId := ⟨.zeros 32⟩
  publicKey := ""
  ip := .v4 ⟨10, 0, 0, 1⟩
  tcpPort := 9000
  udpPort := none
  addresses := []
  forkId := default
  subnets := default
  protocolVersion := none
  agent := none
  agentText := none
  location := none
  sync := none
  score := .good
  connectable := false
  lastConnected := none
  lastUpdated := 0

/-- One worker, for which a peer is fresh for ten seconds. -/
def context : Context where
  settings := ⟨1, 5, 10, 1, 5⟩
  clock := ⟨0, 1, 1⟩
  resolve _ := .error .notFound

/-- The keeper of one peer. -/
def start : Machine :=
  .fresh context.settings (.ofRegistry (.ofList [peer]))

/-- The machine after it has been told that the peer is stale. -/
def told (m : Machine) : Machine :=
  { m with
    store := { m.store with log := .listStale :: m.store.log }
    selector := .listed 1 [peer] }

theorem step_list {m : Machine} {limit : Nat} (hs : m.selector = .counted 1 (limit + 1))
    (hpeers : m.store.registry.peers = [peer]) (hup : .listStale ∉ m.store.down) :
    m.step context (.list 100) = some (told m) := by
  have stale : m.store.registry.listStale 100 10 (limit + 1) = [peer] := by
    have old : peer.lastUpdated < 100 - 10 := by decide
    simp [Registry.listStale, hpeers, old]
  have answer : m.store.listStale 100 context.settings.staleAfter (limit + 1) =
      (.ok [peer], { m.store with log := .listStale :: m.store.log }) := by
    rw [PeerStore.listStale, PeerStore.answer_of_up hup]
    rw [show context.settings.staleAfter = 10 from rfl, stale]
  simp only [Machine.step, Machine.list, hs, answer, told]

/-- The selector is about to ask for stale peers. -/
def asking : History × Machine :=
  performing context (.empty, start) [.begin, .count]

/-- The peer has been listed and is in flight. -/
def marked : History × Machine :=
  performing context (asking.1.after context asking.2 (.list 100), told asking.2)
    [.choose, .acquire, .mark]

theorem run_marked (others : PeerStore → PeerStore → Prop) :
    Run others context start marked.1 marked.2 :=
  Run.performing (.step (Run.performing .start _) (step_list rfl rfl (by decide))) _

end Solo

end PeerCensus.Keeper
