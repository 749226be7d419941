import Mathlib.Data.List.Nodup
import PeerCensus.Store.PeerStore

/-!
# What a store holds after a call

A call changes what is stored under one id, and nothing else. The stale peers that are listed are
stored peers with distinct ids.

Results:
* `Registry.find?_put_of_ne`, `Registry.find?_erase_of_ne`: other ids are not touched.
* `Registry.mem_listStale_iff`: which peers are listed when all may be.
* `Registry.exists_listed`: some stale peers are listed even if others are passed over.
* `PeerStore.find?_create`: what is stored under each id after a peer has been created.
* `PeerStore.mem_of_listStale`: a listed peer is stored as it is listed, and stale.
-/

namespace PeerCensus

namespace Registry

theorem id_of_find?_eq_some {id : PeerId} {r : Registry} {p : Peer} (h : r.find? id = some p) :
    p.id = id := by
  rw [find?] at h
  simpa using List.find?_some h

theorem find?_eq_some_of_mem {p : Peer} {r : Registry} (h : p ∈ r.peers) :
    r.find? p.id = some p := by
  cases found : r.find? p.id with
  | none =>
    rw [find?, List.find?_eq_none] at found
    simpa using found p h
  | some q =>
    have hid := id_of_find?_eq_some found
    rw [find?] at found
    have hq := List.mem_of_find?_eq_some found
    exact congrArg some (List.inj_on_of_nodup_map r.nodup hq h hid)

theorem find?_put_of_ne {id : PeerId} {p : Peer} (h : id ≠ p.id) (r : Registry) :
    (r.put p).find? id = r.find? id := by
  unfold put
  split
  · have same : ((fun q : Peer => decide (q.id = id)) ∘ override p) = fun q => decide (q.id = id) :=
      funext fun q => by simp [id_override]
    simp only [find?, List.find?_map, same]
    cases found : r.peers.find? fun q => decide (q.id = id) with
    | none => rfl
    | some q =>
      have hid : q.id = id := id_of_find?_eq_some found
      simp [override, hid, h]
  · simp [find?, List.find?_append, h.symm]

theorem find?_erase_of_ne {id other : PeerId} (h : other ≠ id) (r : Registry) :
    (r.erase id).find? other = r.find? other := by
  simp only [find?, erase, List.find?_filter]
  congr 1
  funext q
  by_cases hq : q.id = other
  · simp [hq, h]
  · simp [hq]

theorem contains_eq_isSome (id : PeerId) (r : Registry) :
    r.contains id = (r.find? id).isSome := by
  rw [Bool.eq_iff_iff, find?, List.find?_isSome, contains, List.any_eq_true]

/-! ## Stale peers -/

/-- All stale peers, in the order in which they are listed. -/
def stale (now window : Nat) (r : Registry) : List Peer :=
  (r.peers.filter fun p => p.lastUpdated < now - window).mergeSort oldestFirst

theorem listStale_eq_take (now window limit : Nat) (r : Registry) :
    r.listStale now window limit = (r.stale now window).take limit := rfl

theorem mem_stale_iff {now window : Nat} {r : Registry} {p : Peer} :
    p ∈ r.stale now window ↔ r.find? p.id = some p ∧ p.lastUpdated < now - window := by
  rw [stale, (List.mergeSort_perm _ _).mem_iff, List.mem_filter, decide_eq_true_eq]
  exact and_congr_left fun _ => ⟨find?_eq_some_of_mem, List.mem_of_find?_eq_some⟩

/-- The ids of stale peers are distinct, like those of all stored peers. -/
theorem nodup_stale (now window : Nat) (r : Registry) :
    ((r.stale now window).map Peer.id).Nodup := by
  have all : ((r.peers.filter fun p => p.lastUpdated < now - window).map Peer.id).Nodup :=
    r.nodup.sublist (List.filter_sublist.map _)
  exact ((List.mergeSort_perm _ _).map Peer.id).nodup_iff.2 all

theorem length_stale_le (now window : Nat) (r : Registry) :
    (r.stale now window).length ≤ r.size := by
  rw [stale, List.length_mergeSort]
  exact List.length_filter_le ..

theorem nodup_listStale (now window limit : Nat) (r : Registry) :
    ((r.listStale now window limit).map Peer.id).Nodup :=
  (nodup_stale now window r).sublist ((List.take_sublist ..).map _)

/-- A listed peer is stored as it is listed, and stale. -/
theorem mem_listStale {now window limit : Nat} {r : Registry} {p : Peer}
    (hp : p ∈ r.listStale now window limit) :
    r.find? p.id = some p ∧ p.lastUpdated < now - window :=
  mem_stale_iff.1 (List.mem_of_mem_take hp)

/-- Under a window that reaches back to time zero no peer is stale. -/
theorem listStale_eq_nil_of_le {now window : Nat} (h : now ≤ window) (limit : Nat) (r : Registry) :
    r.listStale now window limit = [] := by
  rw [List.eq_nil_iff_forall_not_mem]
  intro p hp
  have hold := (mem_listStale hp).2
  omega

/-- When all that are stored may be listed, exactly the stale ones are. -/
theorem mem_listStale_iff {now window limit : Nat} {r : Registry} {p : Peer} (h : r.size ≤ limit) :
    p ∈ r.listStale now window limit ↔ r.find? p.id = some p ∧ p.lastUpdated < now - window := by
  rw [listStale_eq_take, List.take_of_length_le (Nat.le_trans (length_stale_le now window r) h),
    mem_stale_iff]

/-- If a peer is stale and none of `lost`, some such peer is listed among as many as these and one
more. -/
theorem exists_listed {now window limit : Nat} {r : Registry} {lost : List PeerId} {p : Peer}
    (hp : p ∈ r.peers) (hstale : p.lastUpdated < now - window) (hlost : p.id ∉ lost)
    (hlimit : lost.length < limit) : ∃ q ∈ r.listStale now window limit, q.id ∉ lost := by
  by_contra hnone
  push Not at hnone
  have mem : p ∈ r.stale now window := mem_stale_iff.2 ⟨find?_eq_some_of_mem hp, hstale⟩
  have few : (r.listStale now window limit).length ≤ lost.length := by
    have subset : (r.listStale now window limit).map Peer.id ⊆ lost := by
      intro id hid
      obtain ⟨q, hq, rfl⟩ := List.mem_map.1 hid
      exact hnone q hq
    simpa using (nodup_listStale now window limit r).length_le_of_subset subset
  -- so the list is not cut off, and the peer is on it
  have whole : r.listStale now window limit = r.stale now window := by
    rw [listStale_eq_take, List.length_take] at few
    rw [listStale_eq_take]
    exact List.take_of_length_le (by omega)
  exact hlost (hnone p (whole ▸ mem))

end Registry

namespace PeerStore

/-- What a call leaves stored. -/
theorem registry_answer (call : StoreCall) (f : Registry → Except StoreError (α × Registry))
    (s : PeerStore) :
    (s.answer call f).2.registry = s.registry ∨
      ∃ a r, f s.registry = .ok (a, r) ∧ (s.answer call f).1 = .ok a ∧
        (s.answer call f).2.registry = r := by
  by_cases h : call ∈ s.down
  · rw [answer_of_down h]
    exact .inl rfl
  · rw [answer_of_up h]
    split
    · rename_i a r hf
      exact .inr ⟨a, r, hf, rfl, rfl⟩
    · exact .inl rfl

/-- A call does not change which calls are refused. -/
theorem down_answer (call : StoreCall) (f : Registry → Except StoreError (α × Registry))
    (s : PeerStore) : (s.answer call f).2.down = s.down := by
  by_cases h : call ∈ s.down
  · rw [answer_of_down h]
  · rw [answer_of_up h]
    split <;> rfl

/-- What creating does while the store answers. -/
theorem create_of_up {s : PeerStore} (h : .create ∉ s.down) (p : Peer) :
    s.create p = (.ok (!s.registry.contains p.id),
      { s with
        log := .create :: s.log
        registry := if s.registry.contains p.id then s.registry else s.registry.put p }) := by
  rw [create, answer_of_up h]
  cases s.registry.contains p.id <;> rfl

/-- A peer that is created was not known before. -/
theorem find?_of_create_eq_true {p : Peer} {s : PeerStore} (h : (s.create p).1 = .ok true) :
    s.registry.find? p.id = none := by
  by_cases hdown : .create ∈ s.down
  · rw [create, answer_of_down hdown] at h
    cases h
  · rw [create_of_up hdown] at h
    have unknown : s.registry.contains p.id = false := by simpa using h
    rw [Registry.contains_eq_isSome] at unknown
    exact Option.isNone_iff_eq_none.1 (Option.isSome_eq_false_iff.1 unknown)

/-- Creating a peer stores it, or changes nothing. -/
theorem find?_create (p : Peer) (s : PeerStore) (id : PeerId) :
    (s.create p).2.registry.find? id =
      if (s.create p).1 = .ok true ∧ id = p.id then some p else s.registry.find? id := by
  by_cases hdown : .create ∈ s.down
  · simp [create, answer_of_down hdown]
  · rw [create_of_up hdown]
    cases known : s.registry.contains p.id with
    | true => simp
    | false =>
      by_cases hid : id = p.id
      · subst hid
        simp [Registry.find?_put_self]
      · simp [hid, Registry.find?_put_of_ne hid]

/-- Creating leaves known peers as they are. -/
theorem find?_create_of_some {s : PeerStore} {id : PeerId} {p : Peer} (q : Peer)
    (h : s.registry.find? id = some p) : (s.create q).2.registry.find? id = some p := by
  rw [find?_create, if_neg, h]
  rintro ⟨hcreated, rfl⟩
  rw [find?_of_create_eq_true hcreated] at h
  cases h

theorem registry_viewAll (s : PeerStore) : s.viewAll.2.registry = s.registry := by
  rcases registry_answer .viewAll (fun r => .ok (r.peers, r)) s with same | ⟨a, r, hf, -, hr⟩
  · exact same
  · cases hf
    exact hr

theorem registry_listStale (now window limit : Nat) (s : PeerStore) :
    (s.listStale now window limit).2.registry = s.registry := by
  rcases registry_answer .listStale (fun r => .ok (r.listStale now window limit, r)) s with
    same | ⟨a, r, hf, -, hr⟩
  · exact same
  · cases hf
    exact hr

theorem listStale_eq_ok {s s' : PeerStore} {now window limit : Nat} {stale : List Peer}
    (h : s.listStale now window limit = (.ok stale, s')) :
    stale = s.registry.listStale now window limit := by
  by_cases hdown : .listStale ∈ s.down
  · rw [listStale, answer_of_down hdown] at h
    cases h
  · rw [listStale, answer_of_up hdown] at h
    cases h
    rfl

/-- The ids of listed peers are distinct. -/
theorem nodup_of_listStale {s s' : PeerStore} {now window limit : Nat} {stale : List Peer}
    (h : s.listStale now window limit = (.ok stale, s')) : (stale.map Peer.id).Nodup := by
  rw [listStale_eq_ok h]
  exact Registry.nodup_listStale now window limit s.registry

/-- A listed peer is stored as it is listed, and stale. -/
theorem mem_of_listStale {s s' : PeerStore} {now window limit : Nat} {stale : List Peer} {p : Peer}
    (h : s.listStale now window limit = (.ok stale, s')) (hp : p ∈ stale) :
    s.registry.find? p.id = some p ∧ p.lastUpdated < now - window := by
  rw [listStale_eq_ok h] at hp
  exact Registry.mem_listStale hp

end PeerStore

end PeerCensus
