import Mathlib.Logic.Function.Basic
import PeerCensus.Proofs.Store.Registry

/-!
# The peer store is a partial map

A store that refuses no call answers as a partial map from ids to records would. `MapStep` says what
such a map answers to one operation and which map is left, and `MapRun` the same for a sequence of
operations. All peers are listed in any order, so that the map does not determine that answer, and
it determines all others.

Results:
* `MapStep.eq_update`: a step changes the map at most under the id it is about.
* `MapRun.eq_last`: what is under an id after a run is what was left there last.
* `PeerStore.perform_spec`: one operation of a store is a step of the map.
* `PeerStore.refines_map`: a sequence of operations is a run of the map.
-/

namespace PeerCensus

/-- An operation of a store, with what it is about. -/
inductive StoreOp
  | create (p : Peer)
  | update (p : Peer)
  | upsert (p : Peer)
  | view (id : PeerId)
  | delete (id : PeerId)
  | viewAll

/-- The answer to an operation. -/
inductive StoreReply
  /-- Whether the peer is new. -/
  | created (new : Bool)
  | done
  | found (p : Peer)
  | listed (peers : List Peer)
  | failed (e : StoreError)

/-! ## Partial maps -/

/-- The record under each id. -/
abbrev PeerMap := PeerId → Option Peer

/-- `MapStep m op reply m'`: a map `m` answers `op` by `reply` and becomes `m'`. -/
inductive MapStep (m : PeerMap) : StoreOp → StoreReply → PeerMap → Prop
  | created {p : Peer} : m p.id = none →
    MapStep m (.create p) (.created true) (Function.update m p.id (some p))
  | known {p q : Peer} : m p.id = some q → MapStep m (.create p) (.created false) m
  | updated {p q : Peer} : m p.id = some q →
    MapStep m (.update p) .done (Function.update m p.id (some p))
  | notUpdated {p : Peer} : m p.id = none → MapStep m (.update p) (.failed (.notFound p.id)) m
  | upserted {p : Peer} : MapStep m (.upsert p) .done (Function.update m p.id (some p))
  | found {id : PeerId} {p : Peer} : m id = some p → MapStep m (.view id) (.found p) m
  | notFound {id : PeerId} : m id = none → MapStep m (.view id) (.failed (.notFound id)) m
  | deleted {id : PeerId} {p : Peer} : m id = some p →
    MapStep m (.delete id) .done (Function.update m id none)
  | notDeleted {id : PeerId} : m id = none → MapStep m (.delete id) (.failed (.notFound id)) m
  | listed {peers : List Peer} : (peers.map Peer.id).Nodup →
    (∀ id p, m id = some p ↔ p ∈ peers ∧ p.id = id) → MapStep m .viewAll (.listed peers) m

/-- `MapRun m ops replies m'`: a map `m` answers `ops` one after the other by `replies` and is `m'`
in the end. -/
inductive MapRun : PeerMap → List StoreOp → List StoreReply → PeerMap → Prop
  | nil {m : PeerMap} : MapRun m [] [] m
  | cons {m m' m'' : PeerMap} {op : StoreOp} {ops : List StoreOp} {reply : StoreReply}
    {replies : List StoreReply} : MapStep m op reply m' → MapRun m' ops replies m'' →
    MapRun m (op :: ops) (reply :: replies) m''

namespace StoreOp

/-- The id an operation is about. -/
def id? : StoreOp → Option PeerId
  | create p | update p | upsert p => some p.id
  | view id | delete id => some id
  | viewAll => none

/-- What an operation with this answer leaves under its id: a record that was written, or none where
one was deleted. There is nothing for an operation that changes nothing. -/
def left? : StoreOp → StoreReply → Option (PeerId × Option Peer)
  | create p, .created true | update p, .done | upsert p, .done => some (p.id, some p)
  | delete id, .done => some (id, none)
  | _, _ => none

theorem id?_of_left? {op : StoreOp} {reply : StoreReply} {id : PeerId} {left : Option Peer}
    (h : op.left? reply = some (id, left)) : op.id? = some id := by
  unfold left? at h
  split at h <;> cases h <;> rfl

theorem left?_known (op : StoreOp) : op.left? (.created false) = none := by
  cases op <;> rfl

theorem left?_failed (op : StoreOp) (e : StoreError) : op.left? (.failed e) = none := by
  cases op <;> rfl

/-- What operations left under `id`, in their order. -/
def leftUnder (id : PeerId) (trace : List (StoreOp × StoreReply)) : List (Option Peer) :=
  ((trace.filterMap fun entry => entry.1.left? entry.2).filter fun left => left.1 = id).map
    Prod.snd

theorem leftUnder_cons (id : PeerId) (op : StoreOp) (reply : StoreReply)
    (trace : List (StoreOp × StoreReply)) : leftUnder id ((op, reply) :: trace) =
      match op.left? reply with
      | none => leftUnder id trace
      | some (other, left) =>
        if other = id then left :: leftUnder id trace else leftUnder id trace := by
  unfold leftUnder
  cases hleft : op.left? reply with
  | none => simp [hleft]
  | some entry =>
    obtain ⟨other, left⟩ := entry
    by_cases hid : other = id
    · simp [hleft, hid]
    · simp [hleft, hid]

end StoreOp

namespace MapStep

variable {m m' : PeerMap} {op : StoreOp} {reply : StoreReply}

/-- A step leaves what the operation leaves under its id, and all else as it was. -/
theorem eq_update (h : MapStep m op reply m') :
    m' = match op.left? reply with
      | none => m
      | some (id, left) => Function.update m id left := by
  cases h <;> rfl

/-- A step changes at most what is under its own id. -/
theorem eq_of_ne (h : MapStep m op reply m') {id : PeerId} (hid : op.id? ≠ some id) :
    m' id = m id := by
  rw [h.eq_update]
  split
  · rfl
  · rename_i other left hleft
    apply Function.update_of_ne
    rintro rfl
    exact hid (StoreOp.id?_of_left? hleft)

end MapStep

/-- After a run there is under each id what was left there last, and what was there before if
nothing was. -/
theorem MapRun.eq_last {m m' : PeerMap} {ops : List StoreOp} {replies : List StoreReply}
    (h : MapRun m ops replies m') (id : PeerId) :
    m' id = (StoreOp.leftUnder id (ops.zip replies)).getLast?.getD (m id) := by
  induction h with
  | nil => rfl
  | cons hstep _ ih =>
    rw [ih, hstep.eq_update, List.zip_cons_cons, StoreOp.leftUnder_cons]
    split
    · rfl
    · rename_i other left _
      by_cases hid : other = id
      · subst hid
        rw [if_pos rfl, List.getLast?_cons, Option.getD_some, Function.update_self]
      · rw [if_neg hid, Function.update_of_ne (Ne.symm hid)]

/-! ## The map of a registry -/

namespace Registry

/-- The records of a registry by their ids. -/
def toMap (r : Registry) : PeerMap := fun id => r.find? id

theorem toMap_put (p : Peer) (r : Registry) :
    (r.put p).toMap = Function.update r.toMap p.id (some p) := by
  funext id
  unfold toMap
  by_cases hid : id = p.id
  · rw [hid, find?_put_self, Function.update_self]
  · rw [find?_put_of_ne hid, Function.update_of_ne hid]

theorem toMap_erase (id : PeerId) (r : Registry) :
    (r.erase id).toMap = Function.update r.toMap id none := by
  funext other
  unfold toMap
  by_cases hid : other = id
  · rw [hid, find?_erase_self, Function.update_self]
  · rw [find?_erase_of_ne hid, Function.update_of_ne hid]

theorem toMap_eq_some_iff {id : PeerId} {p : Peer} {r : Registry} :
    r.toMap id = some p ↔ p ∈ r.peers ∧ p.id = id := by
  unfold toMap
  constructor
  · intro h
    exact ⟨List.mem_of_find?_eq_some h, id_of_find?_eq_some h⟩
  · rintro ⟨hmem, rfl⟩
    exact find?_eq_some_of_mem hmem

theorem contains_iff {id : PeerId} {r : Registry} :
    r.contains id = true ↔ ∃ p, r.toMap id = some p := by
  rw [contains_eq_isSome, Option.isSome_iff_exists]
  rfl

theorem contains_eq_false_iff {id : PeerId} {r : Registry} :
    r.contains id = false ↔ r.toMap id = none := by
  rw [contains_eq_isSome, Option.isSome_eq_false_iff, Option.isNone_iff_eq_none]
  rfl

end Registry

/-! ## Operations of a store -/

namespace PeerStore

/-- The answer to a call as that to an operation. -/
def reply (f : α → StoreReply) : Except StoreError α × PeerStore → StoreReply × PeerStore
  | (.ok a, s) => (f a, s)
  | (.error e, s) => (.failed e, s)

/-- Makes the call of an operation. -/
def perform (s : PeerStore) : StoreOp → StoreReply × PeerStore
  | .create p => reply .created (s.create p)
  | .update p => reply (fun _ => .done) (s.update p)
  | .upsert p => reply (fun _ => .done) (s.upsert p)
  | .view id => reply .found (s.view id)
  | .delete id => reply (fun _ => .done) (s.delete id)
  | .viewAll => reply .listed s.viewAll

/-- Makes the calls of operations one after the other. -/
def performAll (s : PeerStore) : List StoreOp → List StoreReply × PeerStore
  | [] => ([], s)
  | op :: ops =>
    let (reply, s) := s.perform op
    let (replies, s) := s.performAll ops
    (reply :: replies, s)

variable {s : PeerStore}

theorem down_perform (s : PeerStore) (op : StoreOp) : (s.perform op).2.down = s.down := by
  have same {α : Type} (f : α → StoreReply) (a : Except StoreError α × PeerStore) :
      (reply f a).2 = a.2 := by
    obtain ⟨_ | _, _⟩ := a <;> rfl
  cases op <;> exact (congrArg PeerStore.down (same _ _)).trans (down_answer _ _ s)

/-- One operation of a store that refuses no call is a step of the map, and the registry itself
stays as it was if the operation leaves nothing. -/
theorem perform_spec (h : s.down = []) (op : StoreOp) :
    MapStep s.registry.toMap op (s.perform op).1 (s.perform op).2.registry.toMap ∧
      (op.left? (s.perform op).1 = none → (s.perform op).2.registry = s.registry) := by
  have up (call : StoreCall) : call ∉ s.down := h ▸ List.not_mem_nil
  cases op with
  | create p =>
    simp only [perform, create, answer_of_up (up _)]
    cases known : s.registry.contains p.id with
    | true =>
      obtain ⟨q, hq⟩ := Registry.contains_iff.1 known
      exact ⟨.known hq, fun _ => rfl⟩
    | false =>
      refine ⟨?_, fun hnone => absurd hnone (Option.some_ne_none _)⟩
      show MapStep _ _ (.created true) (s.registry.put p).toMap
      rw [Registry.toMap_put]
      exact .created (Registry.contains_eq_false_iff.1 known)
  | update p =>
    simp only [perform, update, answer_of_up (up _)]
    cases known : s.registry.contains p.id with
    | true =>
      obtain ⟨q, hq⟩ := Registry.contains_iff.1 known
      refine ⟨?_, fun hnone => absurd hnone (Option.some_ne_none _)⟩
      show MapStep _ _ .done (s.registry.put p).toMap
      rw [Registry.toMap_put]
      exact .updated hq
    | false => exact ⟨.notUpdated (Registry.contains_eq_false_iff.1 known), fun _ => rfl⟩
  | upsert p =>
    simp only [perform, upsert, answer_of_up (up _)]
    refine ⟨?_, fun hnone => absurd hnone (Option.some_ne_none _)⟩
    show MapStep _ _ .done (s.registry.put p).toMap
    rw [Registry.toMap_put]
    exact .upserted
  | view id =>
    simp only [perform, view, answer_of_up (up _)]
    cases hfind : s.registry.find? id with
    | some p => exact ⟨.found hfind, fun _ => rfl⟩
    | none => exact ⟨.notFound hfind, fun _ => rfl⟩
  | delete id =>
    simp only [perform, delete, answer_of_up (up _)]
    cases known : s.registry.contains id with
    | true =>
      obtain ⟨q, hq⟩ := Registry.contains_iff.1 known
      refine ⟨?_, fun hnone => absurd hnone (Option.some_ne_none _)⟩
      show MapStep _ _ .done (s.registry.erase id).toMap
      rw [Registry.toMap_erase]
      exact .deleted hq
    | false => exact ⟨.notDeleted (Registry.contains_eq_false_iff.1 known), fun _ => rfl⟩
  | viewAll =>
    simp only [perform, viewAll, answer_of_up (up _)]
    exact ⟨.listed s.registry.nodup fun _ _ => Registry.toMap_eq_some_iff, fun _ => rfl⟩

theorem mapRun_performAll (h : s.down = []) (ops : List StoreOp) :
    MapRun s.registry.toMap ops (s.performAll ops).1 (s.performAll ops).2.registry.toMap := by
  induction ops generalizing s with
  | nil => exact .nil
  | cons op ops ih => exact .cons (perform_spec h op).1 (ih ((down_perform s op).trans h))

theorem down_performAll (s : PeerStore) (ops : List StoreOp) :
    (s.performAll ops).2.down = s.down := by
  induction ops generalizing s with
  | nil => rfl
  | cons op ops ih => exact (ih (s.perform op).2).trans (down_perform s op)

/-- A store answers a sequence of operations as the partial map of its records does. Each record is
stored under its own id, and it is the one that was left there last. An operation changes at most
what is under the id it is about; one that fails, and one to create a known peer, changes nothing
that is stored. -/
theorem refines_map (r : Registry) (ops : List StoreOp) :
    ∃ replies s, (ofRegistry r).performAll ops = (replies, s) ∧
      MapRun r.toMap ops replies s.registry.toMap ∧
      (∀ id p, s.registry.toMap id = some p → p.id = id) ∧
      (∀ id, s.registry.toMap id =
        (StoreOp.leftUnder id (ops.zip replies)).getLast?.getD (r.toMap id)) ∧
      ∀ op reply s', s.perform op = (reply, s') →
        MapStep s.registry.toMap op reply s'.registry.toMap ∧
        (∀ id, op.id? ≠ some id → s'.registry.toMap id = s.registry.toMap id) ∧
        (reply = .created false ∨ (∃ e, reply = .failed e) → s'.registry = s.registry) := by
  have run := mapRun_performAll (s := ofRegistry r) rfl ops
  refine ⟨_, _, rfl, run, ?_, run.eq_last, ?_⟩
  · intro id p hp
    exact (Registry.toMap_eq_some_iff.1 hp).2
  · intro op reply s' hop
    obtain ⟨hstep, hsame⟩ := perform_spec (down_performAll (ofRegistry r) ops) op
    rw [hop] at hstep hsame
    refine ⟨hstep, fun id hid => hstep.eq_of_ne hid, ?_⟩
    rintro (rfl | ⟨e, rfl⟩)
    · exact hsame (StoreOp.left?_known op)
    · exact hsame (StoreOp.left?_failed op e)

end PeerStore

end PeerCensus
