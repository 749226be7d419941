import PeerCensus.Crawl.Progress

/-!
# Runs

A run begins with what earlier ones have left: the stored peers, the peers still in flight, the
history, and how often the host has been asked for each peer. It goes on until it is told to stop
and ends when every party has stopped.
-/

namespace PeerCensus.Crawl

open Keeper

/-- Which parties take part in a run. -/
structure Parties where
  /-- Whether stale peers are selected. -/
  selects : Bool
  /-- Whether snapshots are taken. -/
  snapshots : Bool
  /-- The nodes that are discovered as soon as the run begins. -/
  known : List NodeRecord
  /-- The nodes that are discovered later, with their times after the beginning of the run. -/
  feed : List (Nat × NodeRecord)

/-- All parties, with nodes of which one is discovered each time that `every` milliseconds have
passed, or all of them as soon as the run begins if that is no time. -/
def Parties.all (every : Nat) (nodes : List NodeRecord) : Parties where
  selects := true
  snapshots := true
  known := if every = 0 then nodes else []
  feed := if every = 0 then [] else nodes.zipIdx.map fun (r, n) => (every * (n + 1), r)

namespace Timeline

/-- The timeline before the first run. -/
def fresh (s : Settings) (stores : Stores) : Timeline where
  time := 0
  machine := .fresh s stores.peers
  nextTick := none
  lastReport := 0
  running := []
  calls := []
  history := stores.history
  nextSnapshot := none
  feed := []
  ready := []
  alarms := []

/-- The timeline at the beginning of a run, over stores that may have been changed since the last
one. The first selection is made at once, the first snapshot after an interval. There are none at
intervals of no length. Nodes come before the selector, and the selector before the snapshots. -/
def opened (c : Course) (parties : Parties) (stores : Stores) (t : Timeline) : Timeline :=
  { t with
    machine := { t.machine with store := stores.peers }.restarted c.keeper.settings
    nextTick := if parties.selects ∧ 0 < c.keeper.settings.selectInterval then some t.time else none
    lastReport := t.time
    history := stores.history
    nextSnapshot :=
      if parties.snapshots ∧ 0 < c.snapshotInterval then some (t.time + c.snapshotInterval) else none
    feed := parties.feed.map fun (delay, r) => (t.time + delay, r)
    ready := .deliver :: parties.known.map .intake ++ [.select, .record]
    alarms := [] }

/-! ## After the stop -/

/-- The worker of a sequence that was going on stores its outcome and stops. -/
def windUp (c : Course) (t : Timeline) (r : Running) : Timeline :=
  { t with
    time := max t.time r.ended
    machine := (t.machine.conclude c.keeper r.worker c.now r.verdict).perform c.keeper
      (.retire r.worker) }

/-- A turn that the stop brings about. A worker that pauses gives its sequence up. A node that is
discovered just then is taken in all the same, and the selector that waits for a permit takes one that
has come free all the same; whether they do is open, since both may also stop at once. -/
def takeAtStop (c : Course) (t : Timeline) : Turn → Timeline
  | .deliver =>
    match t.feed with
    | (due, r) :: feed => if due ≤ c.stop then { t with feed }.intake c r else t
    | [] => t
  | .proceed worker =>
    match t.running.find? fun r => r.worker == worker && r.ended ≤ c.stop with
    | some r => windUp c { t with running := t.running.eraseP (·.worker == worker) } r
    | none => t
  | .select => { t with machine := (t.machine.handOver? c.keeper).getD t.machine }
  | _ => t

/-- The timeline after all has stopped. Those who wait are told in the order in which they began to:
workers in a pause, and a selector without a permit. Then the selector and idle workers stop, and the
others when their sequences have ended. -/
def stopAll (c : Course) (t : Timeline) : Timeline :=
  let t := { t with time := max t.time c.stop, machine := t.machine.perform c.keeper .shutDown }
  let t := ((t.alarms.filter (·.1 == c.stop)).map (·.2)).foldl (takeAtStop c) t
  let m := t.machine.performAll c.keeper [.finish, .abandon, .close]
  let m := m.performAll c.keeper ((List.range m.workers.length).map .retire)
  let running := t.running.mergeSort fun a b => a.ended ≤ b.ended
  running.foldl (windUp c) { t with machine := m, running := [] }

/-- How often a connection has been asked for, for each peer, by the time `time`. -/
def connectCounts (time : Nat) (t : Timeline) : List (PeerId × Nat) :=
  let ids := (t.calls.filter fun e => e.call.isConnect && e.time ≤ time).map HostEntry.id
  ids.eraseDups.map fun id => (id, ids.count id)

/-- A whole run: the timeline when it is told to stop, and when everything has stopped. -/
def run (c : Course) (t : Timeline) : Timeline × Timeline :=
  let stopping := t.runToStop c
  (stopping, stopping.stopAll c)

end Timeline

end PeerCensus.Crawl
