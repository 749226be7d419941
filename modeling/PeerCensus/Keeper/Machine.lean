import PeerCensus.Keeper.Outcome

/-!
# The keeper

The keeper keeps stored peers fresh. A selector lists stale peers and hands them to workers, each
of which brings one sequence of attempts at a time to its end and stores what came of it. There are
as many permits as workers: the selector takes one for each peer that it hands over, and the worker
gives it back when it is done. From being handed over until its outcome is stored a peer is in
flight, and is not selected again.

`Machine.step` makes one step of one of the parties; any interleaving of their steps may happen.

Results:
* `waiting_handOver?`: exactly the first of the chosen peers is handed over, to the end of the queue.
* `supply_conclude`: storing an outcome hands nothing over.
-/

namespace PeerCensus.Keeper

/-- What the keeper is told. Times are in seconds. -/
structure Settings where
  workers : Nat
  /-- The time between selections. -/
  selectInterval : Nat
  /-- For how long a peer is fresh. -/
  staleAfter : Nat
  /-- The attempts of a sequence. -/
  attempts : Nat
  /-- The time between attempts. -/
  retryDelay : Nat
  deriving DecidableEq, Repr

/-- How many workers there are. -/
def Settings.capacity (s : Settings) : Nat := max s.workers 1

/-- All that the keeper does not change. -/
structure Context where
  settings : Settings
  clock : ChainClock
  resolve : Resolver

/-- Where the selector is. -/
inductive Selector
  /-- Between selections. -/
  | idle
  /-- It knows how many peers are wanted. -/
  | sized (wanted : Nat)
  /-- It also knows how many peers to ask for. -/
  | counted (wanted limit : Nat)
  /-- It has been given stale peers. -/
  | listed (wanted : Nat) (stale : List Peer)
  /-- It waits for a permit for the first of the peers it has chosen. -/
  | offering (chosen : List Peer)
  /-- It has a permit for `p`. -/
  | holding (p : Peer) (rest : List Peer)
  /-- It has a permit for `p`, which is in flight. -/
  | marked (p : Peer) (rest : List Peer)
  | stopped
  deriving DecidableEq

/-- Where a worker is. -/
inductive Worker
  | idle
  /-- It tries the peer. -/
  | probing (p : Peer)
  /-- The outcome is stored, the peer is still in flight. -/
  | settled (id : PeerId)
  /-- The peer is no longer in flight, the permit is still held. -/
  | departing (id : PeerId)
  | stopped
  deriving DecidableEq

/-- All that changes while the keeper runs. -/
structure Machine where
  store : PeerStore
  inFlight : List PeerId
  /-- How many permits are free. -/
  permits : Nat
  /-- The peers handed over to no worker yet. -/
  queue : List Peer
  selector : Selector
  workers : List Worker
  /-- Whether the keeper has been told to stop. -/
  shutdown : Bool
  deriving DecidableEq

/-- One step of one party. -/
inductive Action
  /-- A discovered peer is stored, unless it is known. -/
  | create (p : Peer)
  /-- From now on the store refuses other calls than before. -/
  | outage (down : List StoreCall)
  | shutDown
  /-- The selector counts the peers for a status line. -/
  | report
  /-- The selector begins to select. -/
  | begin
  /-- It counts the peers in flight. -/
  | count
  /-- It asks for stale peers at the time `now`. -/
  | list (now : Nat)
  /-- It chooses among them. -/
  | choose
  | acquire
  | mark
  | send
  /-- It has handed over all it has chosen. -/
  | finish
  /-- It gives up handing over because of the shutdown. -/
  | abandon
  /-- It stops. -/
  | close
  /-- A worker takes a peer off the queue. -/
  | receive (worker : Nat)
  /-- A worker stores the outcome of its sequence at the time `now`. -/
  | settle (worker now : Nat) (verdict : Verdict)
  /-- A worker takes its peer out of flight. -/
  | leave (worker : Nat)
  /-- A worker gives its permit back. -/
  | release (worker : Nat)
  /-- A worker stops. -/
  | retire (worker : Nat)
  deriving DecidableEq

namespace Machine

/-- The keeper before its first run. -/
def fresh (s : Settings) (store : PeerStore) : Machine :=
  { store
    inFlight := []
    permits := s.capacity
    queue := []
    selector := .idle
    workers := List.replicate s.capacity .idle
    shutdown := false }

/-- The keeper when a run is over: the queue is gone, and the permits of the peers on it are free. -/
def returned (m : Machine) : Machine :=
  { m with queue := [], permits := m.permits + m.queue.length }

/-- The keeper at the beginning of another run: permits and peers in flight are as the last run has
left them. -/
def restarted (s : Settings) (m : Machine) : Machine :=
  { fresh s m.store with inFlight := m.returned.inFlight, permits := m.returned.permits }

/-! ## Steps of the selector -/

/-- The peers are counted for a status line. Model of `log_status`. -/
def report (m : Machine) : Option Machine :=
  if m.selector = .idle then some { m with store := m.store.viewAll.2 } else none

/-- A selection begins: at least one peer is wanted, and as many as there are free permits. -/
def begin (m : Machine) : Option Machine :=
  if m.selector = .idle then some { m with selector := .sized (max m.permits 1) } else none

/-- The peers in flight are counted, since they may come up again. -/
def count (m : Machine) : Option Machine :=
  match m.selector with
  | .sized wanted => some { m with selector := .counted wanted (wanted + m.inFlight.length) }
  | _ => none

/-- Stale peers are asked for. If the store refuses, the selection is over. -/
def list (c : Context) (now : Nat) (m : Machine) : Option Machine :=
  match m.selector with
  | .counted wanted limit =>
    match m.store.listStale now c.settings.staleAfter limit with
    | (.ok stale, store) => some { m with store, selector := .listed wanted stale }
    | (.error _, store) => some { m with store, selector := .idle }
  | _ => none

/-- The peers that are chosen among stale ones: the first `wanted` that are not in flight. -/
def chosen (m : Machine) (wanted : Nat) (stale : List Peer) : List Peer :=
  (stale.filter fun p => !m.inFlight.contains p.id).take wanted

/-- Peers are chosen among the stale ones. -/
def choose (m : Machine) : Option Machine :=
  match m.selector with
  | .listed wanted stale => some { m with selector := .offering (m.chosen wanted stale) }
  | _ => none

/-- A permit is taken for the first of the chosen peers. -/
def acquire (m : Machine) : Option Machine :=
  match m.selector with
  | .offering (p :: rest) =>
    if 0 < m.permits then some { m with permits := m.permits - 1, selector := .holding p rest }
    else none
  | _ => none

/-- The peer with a permit is put in flight. -/
def mark (m : Machine) : Option Machine :=
  match m.selector with
  | .holding p rest => some { m with inFlight := m.inFlight.insert p.id, selector := .marked p rest }
  | _ => none

/-- The peer in flight is put on the queue, which has room for as many peers as there are workers. -/
def send (c : Context) (m : Machine) : Option Machine :=
  match m.selector with
  | .marked p rest =>
    if m.queue.length < c.settings.capacity then
      some { m with queue := m.queue ++ [p], selector := .offering rest }
    else none
  | _ => none

/-- If the queue were gone, the peer would be taken out of flight, its permit would be given back and
the selection would be over. The keeper holds on to the queue as long as it runs, so that `step` has no
such step. -/
def putBack (m : Machine) : Option Machine :=
  match m.selector with
  | .marked p _ =>
    some { m with
      inFlight := m.inFlight.erase p.id
      permits := m.permits + 1
      selector := .idle }
  | _ => none

/-- All chosen peers have been handed over. -/
def finish (m : Machine) : Option Machine :=
  if m.selector = .offering [] then some { m with selector := .idle } else none

/-- After the shutdown no permit is waited for. -/
def abandon (m : Machine) : Option Machine :=
  match m.selector with
  | .offering (_ :: _) => if m.shutdown then some { m with selector := .idle } else none
  | _ => none

/-- After the shutdown the selector stops. -/
def close (m : Machine) : Option Machine :=
  if m.selector = .idle ∧ m.shutdown then some { m with selector := .stopped } else none

/-! ## Steps of the workers -/

/-- The machine with one worker moved on. -/
def setWorker (m : Machine) (i : Nat) (w : Worker) : Machine :=
  { m with workers := m.workers.set i w }

/-- The worker `i` takes the first peer off the queue. -/
def receive (i : Nat) (m : Machine) : Option Machine :=
  match m.workers[i]?, m.queue with
  | some .idle, p :: queue => some ({ m with queue }.setWorker i (.probing p))
  | _, _ => none

/-- The worker `i` stores the outcome of its sequence. A sequence is given up only after the
shutdown. -/
def settle (c : Context) (i now : Nat) (verdict : Verdict) (m : Machine) : Option Machine :=
  match m.workers[i]? with
  | some (.probing p) =>
    if verdict = .cancelled ∧ m.shutdown = false then none
    else
      let (_, store) := verdict.conclude c.clock c.resolve now p m.store
      some ({ m with store }.setWorker i (.settled p.id))
  | _ => none

/-- The worker `i` takes its peer out of flight. -/
def leave (i : Nat) (m : Machine) : Option Machine :=
  match m.workers[i]? with
  | some (.settled id) =>
    some ({ m with inFlight := m.inFlight.erase id }.setWorker i (.departing id))
  | _ => none

/-- The worker `i` gives its permit back. -/
def release (i : Nat) (m : Machine) : Option Machine :=
  match m.workers[i]? with
  | some (.departing _) => some ({ m with permits := m.permits + 1 }.setWorker i .idle)
  | _ => none

/-- The worker `i` stops: after the shutdown, whatever is on the queue, or when nothing can come. -/
def retire (i : Nat) (m : Machine) : Option Machine :=
  if m.workers[i]? = some .idle ∧ (m.shutdown ∨ (m.queue = [] ∧ m.selector = .stopped)) then
    some (m.setWorker i .stopped)
  else none

/-- The machine after one step; none if the step cannot be made now. Model of `run`, `select` and
`work`, from one wait to the next. -/
def step (c : Context) (m : Machine) : Action → Option Machine
  | .create p => some { m with store := (m.store.create p).2 }
  | .outage down => some { m with store := { m.store with down } }
  | .shutDown => some { m with shutdown := true }
  | .report => m.report
  | .begin => m.begin
  | .count => m.count
  | .list now => m.list c now
  | .choose => m.choose
  | .acquire => m.acquire
  | .mark => m.mark
  | .send => m.send c
  | .finish => m.finish
  | .abandon => m.abandon
  | .close => m.close
  | .receive i => m.receive i
  | .settle i now verdict => m.settle c i now verdict
  | .leave i => m.leave i
  | .release i => m.release i
  | .retire i => m.retire i

/-- The machine after a step, or as it is if the step cannot be made. -/
def perform (c : Context) (m : Machine) (a : Action) : Machine :=
  (m.step c a).getD m

/-- The machine after several steps. -/
def performAll (c : Context) (m : Machine) (actions : List Action) : Machine :=
  actions.foldl (perform c) m

/-- Whether every party has stopped. -/
def isStopped (m : Machine) : Bool :=
  m.selector = .stopped && m.workers.all fun w => w = .stopped

/-- The peers that are chosen and not handed over yet. -/
def waiting (m : Machine) : List Peer :=
  match m.selector with
  | .offering chosen => chosen
  | _ => []

/-- Hands the first of the chosen peers over to the workers; none if that cannot be done now. -/
def handOver? (c : Context) (m : Machine) : Option Machine := do
  (← (← m.acquire).mark).send c

/-- The peers on their way to the workers: those that the selector holds, and the queue. -/
def supply (m : Machine) : Selector × List Peer := (m.selector, m.queue)

theorem supply_settle {c : Context} {m m' : Machine} {i now : Nat} {v : Verdict}
    (h : m.settle c i now v = some m') : m'.supply = m.supply := by
  unfold settle at h
  split at h
  · split at h
    · cases h
    · cases h; rfl
  · cases h

theorem supply_leave {m m' : Machine} {i : Nat} (h : m.leave i = some m') :
    m'.supply = m.supply := by
  unfold leave at h
  split at h
  · cases h; rfl
  · cases h

theorem supply_release {m m' : Machine} {i : Nat} (h : m.release i = some m') :
    m'.supply = m.supply := by
  unfold release at h
  split at h
  · cases h; rfl
  · cases h

/-- A step that hands nothing over does not do so either where it cannot be made. -/
theorem supply_getD {m : Machine} {o : Option Machine} (h : ∀ m', o = some m' → m'.supply = m.supply) :
    (o.getD m).supply = m.supply := by
  cases o with
  | none => rfl
  | some m' => exact h m' rfl

/-- An idle worker takes exactly the first peer off the queue. -/
theorem supply_perform_receive {c : Context} {m : Machine} {i : Nat} {p : Peer} {rest : List Peer}
    (hi : m.workers.idxOf? .idle = some i) (hq : m.queue = p :: rest) :
    (m.perform c (.receive i)).supply = (m.selector, rest) := by
  obtain ⟨hlt, hw, _⟩ := List.idxOf?_eq_some_iff.1 hi
  have idle : m.workers[i]? = some .idle := by
    rw [List.getElem?_eq_getElem hlt, hw]
  simp only [perform, step, receive, idle, hq, Option.getD_some]
  rfl

/-- Once all chosen peers are handed over, nothing is on its way but the queue. -/
theorem waiting_queue_perform_finish {c : Context} {m : Machine} (h : m.waiting = []) :
    (m.perform c .finish).waiting = [] ∧ (m.perform c .finish).queue = m.queue := by
  dsimp only [perform, step, finish]
  split
  · exact ⟨rfl, rfl⟩
  · exact ⟨h, rfl⟩

/-- The machine after the worker `i` has stored an outcome and is idle again. -/
def conclude (c : Context) (i now : Nat) (v : Verdict) (m : Machine) : Machine :=
  m.performAll c [.settle i now v, .leave i, .release i]

theorem supply_conclude (c : Context) (i now : Nat) (v : Verdict) (m : Machine) :
    (m.conclude c i now v).supply = m.supply :=
  (supply_getD fun _ => supply_release).trans
    ((supply_getD fun _ => supply_leave).trans (supply_getD fun _ => supply_settle))

theorem waiting_handOver? {c : Context} {m m' : Machine} (h : m.handOver? c = some m') :
    ∃ p, m.waiting = p :: m'.waiting ∧ m'.queue = m.queue ++ [p] := by
  simp only [handOver?, bind, Option.bind_eq_some_iff] at h
  obtain ⟨m₀, h₀, m₁, h₁, h₂⟩ := h
  rw [acquire] at h₀
  split at h₀
  · rename_i p rest hs
    split at h₀
    · simp only [Option.some.injEq] at h₀
      subst h₀
      simp only [mark, Option.some.injEq] at h₁
      subst h₁
      simp only [send] at h₂
      split at h₂
      · cases h₂
        exact ⟨p, by simp [waiting, hs]⟩
      · cases h₂
    · cases h₀
  · cases h₀

end Machine

end PeerCensus.Keeper
