import PeerCensus.Peer.Basic

/-!
# The registry

The stored peers, each id once. A peer is stale when it was updated before the cutoff; stale peers
are listed with the longest untouched first and by id among equals.

Results:
* `find?_put_self`, `find?_erase_self`: what is found after a change.
-/

namespace PeerCensus

/-- The stored peers. -/
structure Registry where
  peers : List Peer
  nodup : (peers.map Peer.id).Nodup
  deriving DecidableEq

namespace Registry

/-- No peers. -/
def empty : Registry := ⟨[], List.nodup_nil⟩

/-- How many peers are stored. -/
def size (r : Registry) : Nat := r.peers.length

/-- The peer stored under an id. -/
def find? (id : PeerId) (r : Registry) : Option Peer :=
  r.peers.find? fun p => p.id = id

/-- Whether a peer is stored under an id. -/
def contains (id : PeerId) (r : Registry) : Bool :=
  r.peers.any fun p => p.id = id

theorem not_mem_of_not_contains {id : PeerId} {r : Registry} (h : r.contains id = false) :
    id ∉ r.peers.map Peer.id := by
  simp only [contains, List.any_eq_false, decide_eq_true_eq] at h
  simpa using h

/-- `q`, or `p` in its place when they have one id. -/
def override (p q : Peer) : Peer :=
  if q.id = p.id then p else q

theorem id_override (p q : Peer) : (override p q).id = q.id := by
  unfold override
  split <;> simp_all

/-- Stores `p` in the place of the peer with its id, or behind all others if there is none. -/
def put (p : Peer) (r : Registry) : Registry :=
  if h : r.contains p.id then
    ⟨r.peers.map (override p), by
      have same : Peer.id ∘ override p = Peer.id := funext (id_override p)
      simpa [List.map_map, same] using r.nodup⟩
  else
    ⟨r.peers ++ [p], by
      have absent := not_mem_of_not_contains (Bool.eq_false_iff.2 h)
      rw [List.map_append, List.map_singleton]
      refine List.nodup_append.2 ⟨r.nodup, by simp, ?_⟩
      intro a ha b hb hab
      rw [List.mem_singleton] at hb
      exact absent (hb ▸ hab ▸ ha)⟩

/-- The registry without the peer stored under an id. -/
def erase (id : PeerId) (r : Registry) : Registry :=
  ⟨r.peers.filter fun p => p.id ≠ id, r.nodup.sublist (List.filter_sublist.map _)⟩

/-- Stores peers one after another. -/
def putAll (peers : List Peer) (r : Registry) : Registry :=
  peers.foldl (fun r p => r.put p) r

/-- The registry without the peers stored under some ids. -/
def eraseAll (ids : List PeerId) (r : Registry) : Registry :=
  ids.foldl (fun r id => r.erase id) r

/-- The registry of some peers, of those with one id the last. -/
def ofList (peers : List Peer) : Registry :=
  empty.putAll peers

/-- Whether `a` is listed before `b` or is as old and has the same id. -/
def oldestFirst (a b : Peer) : Bool :=
  a.lastUpdated < b.lastUpdated || (a.lastUpdated == b.lastUpdated && a.id.le b.id)

/-- The peers last updated more than `window` seconds before `now`, at most `limit` of them. -/
def listStale (now window limit : Nat) (r : Registry) : List Peer :=
  ((r.peers.filter fun p => p.lastUpdated < now - window).mergeSort oldestFirst).take limit

theorem find?_put_self (p : Peer) (r : Registry) : (r.put p).find? p.id = some p := by
  unfold put
  split
  · rename_i h
    simp only [contains, List.any_eq_true, decide_eq_true_eq] at h
    obtain ⟨q, hq, hid⟩ := h
    simp only [find?, List.find?_map]
    cases found : r.peers.find? ((fun q => decide (q.id = p.id)) ∘ override p) with
    | none =>
      rw [List.find?_eq_none] at found
      exact absurd hid (by simpa [id_override] using found q hq)
    | some q =>
      have same := List.find?_some found
      simp only [Function.comp, id_override, decide_eq_true_eq] at same
      simp [override, same]
  · rename_i h
    simp only [contains, Bool.not_eq_true, List.any_eq_false, decide_eq_true_eq] at h
    simp only [find?]
    rw [List.find?_append, List.find?_eq_none.2 (by simpa using h)]
    simp

theorem find?_erase_self (id : PeerId) (r : Registry) : (r.erase id).find? id = none := by
  simp [find?, erase]

end Registry

end PeerCensus
