import PeerCensus.Store.Registry

/-!
# The peer store

A registry behind calls that may be refused: while a call is down it changes nothing and is answered
by an error. Every call that is made is counted, refused or not.

Results:
* `answer_of_down`: a refused call changes nothing.
* `answer_of_up`: any other is answered by the registry.
* `log_answer`: every call is noted, whatever its answer.
-/

namespace PeerCensus

/-- Why a store did not do what was asked. -/
inductive StoreError
  | notFound (id : PeerId)
  /-- The named part of the store does not answer. -/
  | unavailable (part : String)
  deriving DecidableEq

/-- The text shown for the error. -/
def StoreError.message : StoreError → String
  | notFound id => "Peer " ++ id.text ++ " not found"
  | unavailable part => "Store unavailable: " ++ part ++ " down"

/-- What can be asked of a peer store. -/
inductive StoreCall
  | create
  | update
  | upsert
  | view
  | delete
  | viewAll
  | listStale
  deriving DecidableEq, Repr

namespace StoreCall

/-- The name of a call. -/
def name : StoreCall → String
  | create => "create"
  | update => "update"
  | upsert => "upsert"
  | view => "view"
  | delete => "delete"
  | viewAll => "view_all"
  | listStale => "list_stale"

/-- All calls. -/
def all : List StoreCall := [create, update, upsert, view, delete, viewAll, listStale]

end StoreCall

/-- A registry behind calls. -/
structure PeerStore where
  registry : Registry
  /-- The calls that are refused. -/
  down : List StoreCall
  /-- The calls made so far, the last one first. -/
  log : List StoreCall
  deriving DecidableEq

namespace PeerStore

/-- A store in which all calls work. -/
def ofRegistry (r : Registry) : PeerStore := ⟨r, [], []⟩

/-- How often a call has been made. -/
def count (s : PeerStore) (call : StoreCall) : Nat :=
  s.log.count call

/-- The calls that have been made, with how often each was. -/
def counts (s : PeerStore) : List (StoreCall × Nat) :=
  (StoreCall.all.map fun call => (call, s.count call)).filter fun c => 0 < c.2

/-- Notes a call and answers it by `f`, unless it is refused. -/
def answer (call : StoreCall) (f : Registry → Except StoreError (α × Registry)) (s : PeerStore) :
    Except StoreError α × PeerStore :=
  let s := { s with log := call :: s.log }
  if call ∈ s.down then (.error (.unavailable call.name), s)
  else
    match f s.registry with
    | .ok (a, r) => (.ok a, { s with registry := r })
    | .error e => (.error e, s)

/-- Stores `p` unless its id is known; tells whether it was stored. -/
def create (p : Peer) : PeerStore → Except StoreError Bool × PeerStore :=
  answer .create fun r => if r.contains p.id then .ok (false, r) else .ok (true, r.put p)

/-- Stores `p` in the place of the peer with its id, which must be known. -/
def update (p : Peer) : PeerStore → Except StoreError Unit × PeerStore :=
  answer .update fun r =>
    if r.contains p.id then .ok ((), r.put p) else .error (.notFound p.id)

/-- Stores `p`, whether its id is known or not. -/
def upsert (p : Peer) : PeerStore → Except StoreError Unit × PeerStore :=
  answer .upsert fun r => .ok ((), r.put p)

/-- The peer with an id. -/
def view (id : PeerId) : PeerStore → Except StoreError Peer × PeerStore :=
  answer .view fun r =>
    match r.find? id with
    | some p => .ok (p, r)
    | none => .error (.notFound id)

/-- Removes the peer with an id, which must be known. -/
def delete (id : PeerId) : PeerStore → Except StoreError Unit × PeerStore :=
  answer .delete fun r => if r.contains id then .ok ((), r.erase id) else .error (.notFound id)

/-- All peers. Model of `view_all`. -/
def viewAll : PeerStore → Except StoreError (List Peer) × PeerStore :=
  answer .viewAll fun r => .ok (r.peers, r)

/-- The peers last updated more than `window` seconds before `now`, at most `limit` of them. Model
of `list_stale`. -/
def listStale (now window limit : Nat) : PeerStore → Except StoreError (List Peer) × PeerStore :=
  answer .listStale fun r => .ok (r.listStale now window limit, r)

section Answers

variable {s : PeerStore} {call : StoreCall} {f : Registry → Except StoreError (α × Registry)}

theorem answer_of_down (h : call ∈ s.down) :
    s.answer call f = (.error (.unavailable call.name), { s with log := call :: s.log }) :=
  if_pos h

theorem answer_of_up (h : call ∉ s.down) :
    s.answer call f =
      match f s.registry with
      | .ok (a, r) => (.ok a, { s with log := call :: s.log, registry := r })
      | .error e => (.error e, { s with log := call :: s.log }) :=
  if_neg h

end Answers

/-- Every call is noted. -/
theorem log_answer (call : StoreCall) (f : Registry → Except StoreError (α × Registry))
    (s : PeerStore) : (s.answer call f).2.log = call :: s.log := by
  by_cases h : call ∈ s.down
  · rw [answer_of_down h]
  · rw [answer_of_up h]
    split <;> rfl

end PeerStore

end PeerCensus
