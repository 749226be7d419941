import PeerCensus.Store.PeerStore
import PeerCensus.Store.Statistics
import PeerCensus.Text.Hex

/-!
# History

Snapshots of the network: how many peers were connectable at a time and how many of them were
synced. The history keeps them in the order in which they were taken.
-/

namespace PeerCensus

/-- A number of 128 bits that names a snapshot. -/
structure SnapshotId where
  bytes : FixedBytes 16
  deriving DecidableEq

/-- The digits of the id in groups of eight, four, four, four and twelve. -/
def SnapshotId.render (id : SnapshotId) : String :=
  let digits := Hex.encodeChars id.bytes.toList
  let group (start length : Nat) := String.ofList ((digits.drop start).take length)
  "-".intercalate [group 0 8, group 8 4, group 12 4, group 16 4, group 20 12]

/-- The network at one time. -/
structure Snapshot where
  time : Nat
  total : Nat
  synced : Nat
  deriving DecidableEq, Repr

/-- The text of a snapshot with a name. -/
def Snapshot.render (id : SnapshotId) (s : Snapshot) : String :=
  id.render ++ " at " ++ toString s.time ++ ": " ++ toString s.total ++ " peers, " ++
    toString s.synced ++ " synced"

/-- The snapshots taken so far. -/
structure History where
  snapshots : List Snapshot
  deriving DecidableEq

namespace History

/-- No snapshots. -/
def empty : History := ⟨[]⟩

/-- Adds a snapshot. -/
def add (s : Snapshot) (h : History) : History := ⟨h.snapshots ++ [s]⟩

/-- The snapshots after `start` and before `stop` in order of time, those of one time in the order in
which they were taken. -/
def query (start stop : Nat) (h : History) : List Snapshot :=
  (h.snapshots.filter fun s => start < s.time ∧ s.time < stop).mergeSort fun a b => a.time ≤ b.time

end History

/-- A history behind calls that may be refused. -/
structure HistoryStore where
  history : History
  /-- Whether all calls are refused. -/
  down : Bool
  deriving DecidableEq

namespace HistoryStore

/-- The error of a refused call. -/
def unavailable : StoreError := .unavailable "history"

/-- Adds a snapshot. -/
def add (s : Snapshot) (h : HistoryStore) : Except StoreError Unit × HistoryStore :=
  if h.down then (.error unavailable, h) else (.ok (), { h with history := h.history.add s })

/-- The snapshots after `start` and before `stop`. -/
def query (start stop : Nat) (h : HistoryStore) : Except StoreError (List Snapshot) :=
  if h.down then .error unavailable else .ok (h.history.query start stop)

end HistoryStore

/-- The stores of a crawl. -/
structure Stores where
  peers : PeerStore
  history : HistoryStore
  deriving DecidableEq

namespace Stores

/-- Stores with some peers and no history, in which all calls work. -/
def ofRegistry (r : Registry) : Stores := ⟨.ofRegistry r, ⟨.empty, false⟩⟩

/-- The stores when the named calls are refused, and no others. -/
def refusing (names : List String) (s : Stores) : Stores where
  peers := { s.peers with down := StoreCall.all.filter fun c => names.contains c.name }
  history := { s.history with down := names.contains "history" }

end Stores

/-- Takes a snapshot at the time `now` and adds it to the history. Model of `snapshot`. -/
def takeSnapshot (now : Nat) (peers : PeerStore) (history : HistoryStore) :
    Except StoreError Snapshot × PeerStore × HistoryStore :=
  match peers.viewAll with
  | (.error e, peers) => (.error e, peers, history)
  | (.ok all, peers) =>
    let sync := Statistics.bySync all
    let s : Snapshot := ⟨now, sync.total, sync.synced⟩
    match history.add s with
    | (.error e, history) => (.error e, peers, history)
    | (.ok (), history) => (.ok s, peers, history)

end PeerCensus
