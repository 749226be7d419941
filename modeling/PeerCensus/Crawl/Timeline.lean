import PeerCensus.Keeper.Machine
import PeerCensus.Keeper.Sequence
import PeerCensus.Discovery.Intake
import PeerCensus.Store.History

/-!
# The timeline

A run in which time passes by itself: discovered nodes arrive, the keeper selects at its ticks, its
workers go through their sequences, and snapshots are taken, each at its time. Times are in
milliseconds since the first run. Nothing but waiting takes time. Around a run the wall clock may go
on, and the stores may be changed by others; when it is run alone, neither happens.

What a party does between two waits is a `Turn`. Turns at one time are taken one by one in a fixed
order: whoever has set an alarm earlier is awake earlier, and whoever is woken by another party
comes after all who are awake already.

Results:
* `lt_tickAfter`: the tick after a tick comes later.
-/

namespace PeerCensus.Crawl

open Keeper

/-- What a run does not change. -/
structure Course where
  keeper : Context
  host : Host
  /-- The deadline of each operation of the host, in milliseconds. -/
  requestTimeout : Nat
  allowed : AllowedForks
  /-- The time between snapshots, in milliseconds. -/
  snapshotInterval : Nat
  /-- What the wall clock shows. -/
  now : Nat
  /-- When the run is told to stop. -/
  stop : Nat

/-- What goes on around a run at each time. -/
structure Surroundings where
  /-- What the wall clock shows. -/
  clock : Nat → Nat
  /-- How the stores are changed before a turn. -/
  change : Nat → Stores → Stores

/-- Surroundings in which the wall clock stands still and the stores are left alone. -/
def Surroundings.still (now : Nat) : Surroundings := ⟨fun _ => now, fun _ stores => stores⟩

/-- An operation that was asked of the host. -/
structure HostEntry where
  time : Nat
  id : PeerId
  call : HostCall
  deriving DecidableEq

/-- A sequence of attempts that goes on. -/
structure Running where
  worker : Nat
  /-- The times at which the worker goes on after a wait, in order. -/
  steps : List Nat
  /-- When it ends. -/
  ended : Nat
  verdict : Verdict

/-- What a party does before it waits again. -/
inductive Turn
  /-- The next node is discovered, if it is due. -/
  | deliver
  /-- A discovered node is taken in. -/
  | intake (r : NodeRecord)
  /-- The selector goes on. -/
  | select
  /-- A snapshot is taken, if it is due. -/
  | record
  /-- An idle worker takes a peer off the queue, if there is one. -/
  | receive
  /-- A worker goes on with its sequence. -/
  | proceed (worker : Nat)
  deriving DecidableEq

/-- The state of a run at one time. -/
structure Timeline where
  time : Nat
  machine : Machine
  /-- When the selector's next tick is due; none if nothing is selected in this run. -/
  nextTick : Option Nat
  /-- When the last status line was due. -/
  lastReport : Nat
  running : List Running
  /-- What was asked of the host, the last operation first. -/
  calls : List HostEntry
  history : HistoryStore
  /-- When the next snapshot is due; none if no snapshots are taken in this run. -/
  nextSnapshot : Option Nat
  /-- The nodes still to be discovered, with their times. -/
  feed : List (Nat × NodeRecord)
  /-- The turns that are taken now, in order. -/
  ready : List Turn
  /-- The turns that are taken later, with their times, the alarm that was set first at the front. -/
  alarms : List (Nat × Turn)

/-- The time between two status lines in milliseconds. -/
def reportInterval : Nat := 60000

/-- A tick that comes later than this many milliseconds counts as missed. -/
def tickTolerance : Nat := 5

/-- When the tick is due after a tick that was due at `due` and came at `now`. After a missed tick
the next one is a whole interval away. An interval of no length counts as a millisecond. -/
def tickAfter (interval due now : Nat) : Nat :=
  (if due + tickTolerance < now then now else due) + max interval 1

theorem lt_tickAfter (interval due now : Nat) : due < tickAfter interval due now := by
  unfold tickAfter
  split <;> omega

namespace Timeline

/-- The stores at one time. -/
def stores (t : Timeline) : Stores := ⟨t.machine.store, t.history⟩

/-- The timeline over other stores. -/
def withStores (stores : Stores) (t : Timeline) : Timeline :=
  { t with machine := { t.machine with store := stores.peers }, history := stores.history }

/-- The timeline with an alarm for a turn. -/
def setAlarm (time : Nat) (turn : Turn) (t : Timeline) : Timeline :=
  { t with alarms := t.alarms ++ [(time, turn)] }

/-- The timeline with a turn after those that are ready, unless it is one of them. -/
def wake (turn : Turn) (t : Timeline) : Timeline :=
  { t with ready := if turn ∈ t.ready then t.ready else t.ready ++ [turn] }

/-- The timeline with a turn before those that are ready. -/
def resume (turn : Turn) (t : Timeline) : Timeline :=
  { t with ready := turn :: t.ready }

/-! ## Nodes and snapshots -/

/-- Discovers the next node, if it is due. -/
def deliver (t : Timeline) : Timeline :=
  match t.feed with
  | [] => t
  | (due, r) :: feed =>
    if due ≤ t.time then (wake (.intake r) { t with feed }).resume .deliver
    else t.setAlarm due .deliver

/-- Takes a discovered node in. -/
def intake (c : Course) (r : NodeRecord) (t : Timeline) : Timeline :=
  match c.allowed.candidate r with
  | .ok p => { t with machine := t.machine.perform c.keeper (.create p) }
  | .error _ => t

/-- A snapshot that was due at `due`. -/
def snapshot (c : Course) (due : Nat) (t : Timeline) : Timeline :=
  let (_, store, history) := takeSnapshot c.now t.machine.store t.history
  { t with
    machine := { t.machine with store }
    history
    nextSnapshot := some (tickAfter c.snapshotInterval due t.time) }

/-- Takes a snapshot, if one is due. -/
def record (c : Course) (t : Timeline) : Timeline :=
  match t.nextSnapshot with
  | none => t
  | some due =>
    if due ≤ t.time then (t.snapshot c due).resume .record else t.setAlarm due .record

/-! ## The keeper -/

/-- The selector's tick that was due at `due`: stale peers are chosen. -/
def tick (c : Course) (due : Nat) (t : Timeline) : Timeline :=
  let reports := t.lastReport + reportInterval ≤ t.time
  let m := if reports then t.machine.perform c.keeper .report else t.machine
  { t with
    machine := m.performAll c.keeper [.begin, .count, .list c.now, .choose]
    nextTick := some (tickAfter (c.keeper.settings.selectInterval * 1000) due t.time)
    lastReport := if reports then t.time else t.lastReport }

/-- The selector begins to wait for a permit, which it does until the stop at the longest. -/
def awaitPermit (c : Course) (t : Timeline) : Timeline :=
  { t with alarms := t.alarms.filter (·.2 ≠ .select) ++ [(c.stop, .select)] }

/-- The selector hands the first of the chosen peers over, or waits for a permit. When none are left
it waits for its next tick. -/
def select (c : Course) (t : Timeline) : Timeline :=
  match t.machine.waiting with
  | _ :: _ =>
    match t.machine.handOver? c.keeper with
    | some machine => (wake .receive { t with machine }).resume .select
    | none => t.awaitPermit c
  | [] =>
    let t := { t with machine := t.machine.perform c.keeper .finish }
    match t.nextTick with
    | none => t
    | some due => if due ≤ t.time then (t.tick c due).resume .select else t.setAlarm due .select

/-- How often a connection to a peer has been asked for. -/
def connects (t : Timeline) (id : PeerId) : Nat :=
  t.calls.countP fun e => e.id == id && e.call.isConnect

/-- The sequence of attempts that a worker begins on the peer `p` now. -/
def sequence (c : Course) (t : Timeline) (p : Peer) : Sequence :=
  let before := t.connects p.id
  let settings := c.keeper.settings
  Sequence.run (fun n => Attempt.run c.requestTimeout p (c.host p.id (before + n)))
    settings.attempts (settings.retryDelay * 1000) (some c.stop) t.time

/-- The entries for the attempts of a sequence, the last operation first. -/
def entries (id : PeerId) (s : Sequence) : List HostEntry :=
  (s.attempts.flatMap fun (time, a) => a.calls.map fun call => HostEntry.mk time id call).reverse

/-- An idle worker takes the first peer off the queue and begins a sequence. Then the next idle
worker may look at the queue. -/
def receive (c : Course) (t : Timeline) : Timeline :=
  match t.machine.queue, t.machine.workers.idxOf? .idle with
  | p :: _, some worker =>
    let s := t.sequence c p
    let t := { t with
      machine := t.machine.perform c.keeper (.receive worker)
      running := t.running ++ [Running.mk worker s.steps s.ended s.verdict]
      calls := entries p.id s ++ t.calls }
    (if Worker.idle ∈ t.machine.workers then t.wake .receive else t).resume (.proceed worker)
  | _, _ => t

/-- A worker waits for the next step of its sequence, or concludes it; a selector that waits for a
permit is then woken. -/
def proceed (c : Course) (worker : Nat) (t : Timeline) : Timeline :=
  match t.running.find? (·.worker == worker) with
  | none => t
  | some r =>
    match r.steps.find? (t.time < ·) with
    | some next => t.setAlarm next (.proceed worker)
    | none =>
      let t := { t with
        machine := t.machine.conclude c.keeper worker c.now r.verdict
        running := t.running.eraseP (·.worker == worker) }
      if t.machine.waiting = [] then t else t.wake .select

/-- The timeline after a turn. -/
def take (c : Course) (t : Timeline) : Turn → Timeline
  | .deliver => t.deliver
  | .intake r => t.intake c r
  | .select => t.select c
  | .record => t.record c
  | .receive => t.receive c
  | .proceed worker => t.proceed c worker

/-! ## The passing of time -/

/-- The time of the next alarm, if there is one. -/
def nextAlarm (t : Timeline) : Option Nat :=
  (t.alarms.map (·.1)).min?

/-- The timeline at the time `time`, when all whose alarms are due are awake. -/
def advance (time : Nat) (t : Timeline) : Timeline :=
  let (due, later) := t.alarms.partition fun a => a.1 ≤ time
  { t with time, ready := t.ready ++ due.map (·.2), alarms := later }

end Timeline

end PeerCensus.Crawl
