import PeerCensus.Proofs.Discovery.Course
import PeerCensus.Proofs.Discovery.Intake
import PeerCensus.Proofs.Net.PeerId

/-!
# The first admitted node of a key wins

A list of nodes is taken in one after another by a store that answers. Each id that was not known
before gets the peer of the first admitted node with this id. All that were known, and all later
nodes, change nothing, so that the order of nodes with different keys has no meaning.

Results:
* `Intake.find?_runAll`: what is stored under each id when all nodes have been taken in.
* `Intake.registry_runAll_of_known`: nodes whose ids are known change nothing.
* `Intake.find?_runAll_reorder`: the order of nodes with different keys has no meaning.
* `Intake.first_wins`: what becomes of the nodes, and what they leave stored.
-/

namespace PeerCensus

variable {allowed : AllowedForks} {r : NodeRecord} {records : List NodeRecord} {s : PeerStore}

/-! ## One node -/

/-- An admitted node costs one call, and its peer is stored unless its id is known. -/
theorem ingest_of_up (h : .create ∉ s.down) {p : Peer} (hp : allowed.candidate r = .ok p) :
    ingest allowed r s =
      (if s.registry.contains r.peerId then .known else .created,
        { s with
          log := .create :: s.log
          registry := if s.registry.contains r.peerId then s.registry else s.registry.put p }) := by
  simp only [ingest, hp, PeerStore.create_of_up h, AllowedForks.id_of_candidate_eq_ok hp]
  cases s.registry.contains r.peerId <;> rfl

/-- What is known is kept, and what is new is stored if it is admitted. -/
theorem find?_ingest_of_up (h : .create ∉ s.down) (allowed : AllowedForks) (r : NodeRecord)
    (id : PeerId) :
    (ingest allowed r s).2.registry.find? id =
      (s.registry.find? id).or (if r.peerId = id then (allowed.candidate r).toOption else none) := by
  rw [find?_ingest]
  cases hp : allowed.candidate r with
  | error reason => simp [ingest_of_rejected hp, Except.toOption]
  | ok p =>
    rw [ingest_of_up h hp, Registry.contains_eq_isSome]
    by_cases hid : r.peerId = id
    · subst hid
      cases s.registry.find? r.peerId <;> simp
    · simp [hid, Ne.symm hid]

/-! ## All nodes -/

/-- The peer of the first admitted node with an id. -/
def firstCandidate (allowed : AllowedForks) (records : List NodeRecord) (id : PeerId) :
    Option Peer :=
  records.findSome? fun r => if r.peerId = id then (allowed.candidate r).toOption else none

theorem firstCandidate_cons (allowed : AllowedForks) (r : NodeRecord) (records : List NodeRecord)
    (id : PeerId) :
    firstCandidate allowed (r :: records) id =
      (if r.peerId = id then (allowed.candidate r).toOption else none).or
        (firstCandidate allowed records id) := by
  rw [firstCandidate, List.findSome?_cons]
  split <;> simp_all [firstCandidate]

/-- There is none exactly if all nodes with the id are rejected. -/
theorem firstCandidate_eq_none_iff {id : PeerId} :
    firstCandidate allowed records id = none ↔
      ∀ r ∈ records, r.peerId = id → ∃ reason, allowed.candidate r = .error reason := by
  rw [firstCandidate, List.findSome?_eq_none_iff]
  refine forall₂_congr fun r _ => ?_
  rw [ite_eq_right_iff]
  refine imp_congr_right fun _ => ?_
  cases allowed.candidate r <;> simp [Except.toOption]

/-- Only the nodes of one key matter for its id. -/
theorem firstCandidate_ofPublicKey (allowed : AllowedForks) (records : List NodeRecord)
    (key : PublicKey) :
    firstCandidate allowed records (.ofPublicKey key) =
      firstCandidate allowed (records.filter fun r => r.publicKey = key) (.ofPublicKey key) := by
  induction records with
  | nil => rfl
  | cons r records ih =>
    rw [firstCandidate_cons]
    by_cases hkey : r.publicKey = key
    · rw [List.filter_cons_of_pos (by simpa using hkey), firstCandidate_cons, ih]
    · have hid : r.peerId ≠ .ofPublicKey key := fun hid => hkey (PeerId.ofPublicKey_inj.1 hid)
      rw [List.filter_cons_of_neg (by simpa using hkey), ← ih, if_neg hid, Option.none_or]

namespace Intake

theorem down_runAll (allowed : AllowedForks) (records : List NodeRecord) (s : PeerStore) :
    (runAll allowed records s).down = s.down := by
  induction records generalizing s with
  | nil => rfl
  | cons r records ih => rw [runAll_cons, ih, down_ingest]

/-- What is known is kept, and any other id gets the peer of its first admitted node. -/
theorem find?_runAll (allowed : AllowedForks) (records : List NodeRecord) (h : .create ∉ s.down)
    (id : PeerId) :
    (runAll allowed records s).registry.find? id =
      (s.registry.find? id).or (firstCandidate allowed records id) := by
  induction records generalizing s with
  | nil => simp [runAll, firstCandidate]
  | cons r records ih =>
    rw [runAll_cons, ih (by rwa [down_ingest]), find?_ingest_of_up h, Option.or_assoc,
      firstCandidate_cons]

/-- Nodes whose ids are known change nothing. -/
theorem registry_runAll_of_known (h : .create ∉ s.down)
    (known : ∀ r ∈ records, ∀ p, allowed.candidate r = .ok p → s.registry.contains r.peerId) :
    (runAll allowed records s).registry = s.registry := by
  induction records generalizing s with
  | nil => rfl
  | cons r records ih =>
    have same : (ingest allowed r s).2.registry = s.registry := by
      cases hp : allowed.candidate r with
      | error reason => rw [ingest_of_rejected hp]
      | ok p => simp [ingest_of_up h hp, known r List.mem_cons_self p hp]
    rw [runAll_cons, ih (by rwa [down_ingest]), same]
    intro q hq
    rw [same]
    exact known q (List.mem_cons_of_mem _ hq)

/-- Taking the same nodes in again changes nothing. -/
theorem registry_runAll_runAll (allowed : AllowedForks) (records : List NodeRecord)
    (h : .create ∉ s.down) :
    (runAll allowed records (runAll allowed records s)).registry =
      (runAll allowed records s).registry := by
  refine registry_runAll_of_known (by rwa [down_runAll]) fun r hr p hp => ?_
  rw [Registry.contains_eq_isSome, find?_runAll allowed records h, Option.isSome_or, Bool.or_eq_true,
    Option.isSome_iff_ne_none (o := firstCandidate ..)]
  refine .inr fun hnone => ?_
  obtain ⟨reason, hreason⟩ := firstCandidate_eq_none_iff.1 hnone r hr rfl
  rw [hp] at hreason
  cases hreason

/-- If the nodes of each key come in the same order, the same is stored. -/
theorem find?_runAll_reorder {records' : List NodeRecord} (h : .create ∉ s.down)
    (same : ∀ key : PublicKey, (records'.filter fun r => r.publicKey = key) =
      records.filter fun r => r.publicKey = key) (id : PeerId) :
    (runAll allowed records' s).registry.find? id =
      (runAll allowed records s).registry.find? id := by
  rw [find?_runAll _ _ h, find?_runAll _ _ h]
  congr 1
  by_cases hid : ∃ key, id = .ofPublicKey key
  · obtain ⟨key, rfl⟩ := hid
    rw [firstCandidate_ofPublicKey, same, ← firstCandidate_ofPublicKey]
  · -- no node has such an id
    have none (l : List NodeRecord) : firstCandidate allowed l id = none :=
      firstCandidate_eq_none_iff.2 fun r _ hr => (hid ⟨r.publicKey, hr.symm⟩).elim
    rw [none, none]

/-- What becomes of a node that is taken in after some others. -/
theorem ingest_runAll_of_candidate (before : List NodeRecord) (h : .create ∉ s.down) {p : Peer}
    (hp : allowed.candidate r = .ok p) :
    (ingest allowed r (runAll allowed before s)).1 =
        (if s.registry.find? r.peerId = none ∧ firstCandidate allowed before r.peerId = none then
          .created
        else .known) ∧
      (ingest allowed r (runAll allowed before s)).2.log =
        .create :: (runAll allowed before s).log := by
  have up : .create ∉ (runAll allowed before s).down := by rwa [down_runAll]
  rw [ingest_of_up up hp, Registry.contains_eq_isSome, find?_runAll allowed before h]
  refine ⟨?_, rfl⟩
  cases s.registry.find? r.peerId <;> cases firstCandidate allowed before r.peerId <;> rfl

/-! ## All of it -/

/-- The intake of a list of nodes into a store that answers takes one course, at whose end all nodes
have been taken in, in their order. A node that is not admitted never reaches the store. An admitted
one costs one call, which creates its peer if its id was not known at first and no node before it was
admitted with this id. So what was stored at first is kept as it is, any other id has the peer of its
first admitted node or nothing, the same nodes once more change nothing, and neither does another
order in which the nodes of each key come one after another as before. -/
theorem first_wins (allowed : AllowedForks) (records : List NodeRecord) {s : PeerStore}
    (h : .create ∉ s.down) :
    (∀ actions, .shutDown ∉ actions →
      (((new records s).after? allowed actions).isSome ↔ actions <+: course records.length)) ∧
    (∃ t, (new records s).after? allowed (course records.length) = some t ∧ t.stopped = true ∧
      t.store = runAll allowed records s) ∧
    (∀ before r after, records = before ++ r :: after →
      (new records s).after? allowed (rounds before.length) =
          some (new (r :: after) (runAll allowed before s)) ∧
        (∀ reason, allowed.candidate r = .error reason →
          ingest allowed r (runAll allowed before s) =
            (.rejected reason, runAll allowed before s)) ∧
        ∀ p, allowed.candidate r = .ok p →
          (ingest allowed r (runAll allowed before s)).1 =
              (if s.registry.find? r.peerId = none ∧
                  firstCandidate allowed before r.peerId = none then
                .created
              else .known) ∧
            (ingest allowed r (runAll allowed before s)).2.log =
              .create :: (runAll allowed before s).log) ∧
    (∀ id, (runAll allowed records s).registry.find? id =
      (s.registry.find? id).or (firstCandidate allowed records id)) ∧
    (∀ id p, s.registry.find? id = some p →
      (runAll allowed records s).registry.find? id = some p) ∧
    (runAll allowed records (runAll allowed records s)).registry =
      (runAll allowed records s).registry ∧
    ∀ records' : List NodeRecord, (∀ key : PublicKey,
        (records'.filter fun r => r.publicKey = key) = records.filter fun r => r.publicKey = key) →
      ∀ id, (runAll allowed records' s).registry.find? id =
        (runAll allowed records s).registry.find? id := by
  refine ⟨isSome_after?_new_iff records s, ⟨_, after?_course allowed records s, rfl, rfl⟩, ?_,
    find?_runAll allowed records h, fun id p hp => ?_, registry_runAll_runAll allowed records h,
    fun records' same => find?_runAll_reorder h same⟩
  · rintro before r after rfl
    exact ⟨after?_rounds allowed rfl rfl rfl, fun reason hr => ingest_of_rejected hr _,
      fun p hp => ingest_runAll_of_candidate before h hp⟩
  · rw [find?_runAll allowed records h, hp, Option.some_or]

end Intake

namespace Newcomer

/-- The same node at another port. -/
def moved : NodeRecord := record.withTcp 9100

theorem candidate_moved : forks.candidate moved =
    .ok { peer with tcpPort := 9100, addresses := moved.addresses } := rfl

theorem firstCandidate_record (records : List NodeRecord) :
    firstCandidate forks (record :: records) record.peerId = some peer := by
  rw [firstCandidate_cons, if_pos rfl, candidate_record]
  rfl

/-- Of two nodes with one key the first is stored, and the second is known. -/
theorem first_wins_moved :
    (Intake.runAll forks [record, moved] store).registry.find? record.peerId = some peer ∧
      (ingest forks moved (Intake.runAll forks [record] store)).1 = .known := by
  obtain ⟨-, -, become, stored, -⟩ :=
    Intake.first_wins forks [record, moved] (s := store) List.not_mem_nil
  have known := ((become [record] moved [] rfl).2.2 _ candidate_moved).1
  rw [show moved.peerId = record.peerId from rfl, firstCandidate_record] at known
  refine ⟨?_, known.trans (if_neg (by simp))⟩
  rw [stored, firstCandidate_record]
  rfl

end Newcomer

end PeerCensus
