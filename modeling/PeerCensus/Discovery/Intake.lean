import PeerCensus.Peer.Admission
import PeerCensus.Store.PeerStore

/-!
# Intake

Discovered nodes are taken one after another; those that are admitted are stored unless they are
known. What is known is never changed by discovery. The intake stops when discovery has nothing
left, or when it is told to; nodes that are ready then may still be taken.

Results:
* `ingest_of_rejected`: a node that is not admitted does not reach the store.
-/

namespace PeerCensus

/-- What became of a discovered node. -/
inductive Ingested
  | created
  | known
  | rejected (reason : Rejection)
  /-- The store did not take it. -/
  | failed
  deriving DecidableEq

/-- Takes one discovered node. -/
def ingest (allowed : AllowedForks) (r : NodeRecord) (store : PeerStore) : Ingested × PeerStore :=
  match allowed.candidate r with
  | .error reason => (.rejected reason, store)
  | .ok p =>
    match store.create p with
    | (.ok true, store) => (.created, store)
    | (.ok false, store) => (.known, store)
    | (.error _, store) => (.failed, store)

theorem ingest_of_rejected {allowed : AllowedForks} {r : NodeRecord} {reason : Rejection}
    (h : allowed.candidate r = .error reason) (store : PeerStore) :
    ingest allowed r store = (.rejected reason, store) := by
  simp [ingest, h]

/-- The intake while it runs. -/
structure Intake where
  /-- The nodes that discovery hands out at once, in order. -/
  ready : List NodeRecord
  /-- Whether no other nodes will come after them. -/
  exhausted : Bool
  /-- The node that is being taken in. -/
  taking : Option NodeRecord
  store : PeerStore
  /-- Whether the intake has been told to stop. -/
  shutdown : Bool
  stopped : Bool
  deriving DecidableEq

namespace Intake

/-- A step of the intake, or of discovery. -/
inductive Action
  /-- Discovery has another node. -/
  | arrive (r : NodeRecord)
  /-- Discovery will have no other node. -/
  | exhaust
  | shutDown
  /-- The intake begins to take in the next node. -/
  | take
  /-- The store has answered for the node that is being taken in. -/
  | settle
  | stop
  deriving DecidableEq

/-- The intake of a list of nodes. -/
def new (records : List NodeRecord) (store : PeerStore) : Intake where
  ready := records
  exhausted := true
  taking := none
  store
  shutdown := false
  stopped := false

/-- The intake after one step; none if the step cannot be made now. Between two nodes, when one is
ready and the intake has been told to stop, it may do either. -/
def step (allowed : AllowedForks) (s : Intake) : Action → Option Intake
  | .arrive r => if s.exhausted then none else some { s with ready := s.ready ++ [r] }
  | .exhaust => if s.exhausted then none else some { s with exhausted := true }
  | .shutDown => if s.shutdown then none else some { s with shutdown := true }
  | .take =>
    match s.stopped, s.taking, s.ready with
    | false, none, r :: ready => some { s with ready, taking := some r }
    | _, _, _ => none
  | .settle =>
    match s.taking with
    | some r => some { s with taking := none, store := (ingest allowed r s.store).2 }
    | none => none
  | .stop =>
    if s.stopped = false ∧ s.taking = none ∧ (s.shutdown ∨ s.ready = [] ∧ s.exhausted) then
      some { s with stopped := true }
    else none

/-- The intake after several steps; none if they cannot be made. -/
def after? (allowed : AllowedForks) (s : Intake) (actions : List Action) : Option Intake :=
  actions.foldlM (step allowed) s

/-- Takes all of a list of nodes. -/
def runAll (allowed : AllowedForks) (records : List NodeRecord) (store : PeerStore) : PeerStore :=
  records.foldl (fun store r => (ingest allowed r store).2) store

end Intake

end PeerCensus
