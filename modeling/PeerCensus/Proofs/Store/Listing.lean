import Mathlib.Data.List.Infix
import Mathlib.Data.List.Sort
import PeerCensus.Proofs.Discovery.Intake
import PeerCensus.Proofs.Store.Staleness

/-!
# Listing the first peers

To list the first of some stored peers means to list as many of them as there are up to the limit,
each before all that come after it on the list and before all that are left out. Two such lists
cannot differ, since a peer that only one of them shows would come both before and after one that
only the other shows. So the list does not depend on the order in which the peers are kept, or have
come to be stored.

Results:
* `Registry.Listing.eq`: there is one list of the first peers.
* `Registry.Listing.congr`: it depends on nothing but which peers are stored.
* `Registry.listing_listStale`: the list of stale peers is such a list.
* `Registry.listStale_exact`: it is the only one, and a longer one begins with it.
-/

namespace PeerCensus

/-- Whether the peer was last updated more than `nanos` nanoseconds before `now`, which is in
seconds. What lies before time zero counts as time zero. -/
def Peer.isStale (now nanos : Nat) (p : Peer) : Bool :=
  p.lastUpdated * 1000000000 < now * 1000000000 - nanos

/-- Times are in seconds, so only the whole seconds of the window matter. -/
theorem Peer.isStale_eq_decide (now nanos : Nat) (p : Peer) :
    p.isStale now nanos = decide (p.lastUpdated < now - nanos / 1000000000) := by
  rw [isStale, decide_eq_decide]
  omega

/-- Of two peers at most one is listed before the other. -/
instance : Std.Asymm Peer.Before where
  asymm p q hpq hqp := by
    rcases hpq with hpq | ⟨heq, hpq⟩
    · rcases hqp with hqp | ⟨heq, -⟩
      · exact Nat.lt_asymm hpq hqp
      · exact hpq.ne heq.symm
    · rcases hqp with hqp | ⟨-, hqp⟩
      · exact hqp.ne heq.symm
      · exact String.lt_asymm hpq hqp

namespace Registry

/-- What it is to list the first `limit` of the stored peers that are `due`. -/
structure Listing (r : Registry) (due : Peer → Bool) (limit : Nat) (l : List Peer) : Prop where
  /-- No id is listed twice. -/
  nodup : (l.map Peer.id).Nodup
  /-- Each peer comes before all that are listed after it. -/
  sorted : l.Pairwise Peer.Before
  /-- Those listed are stored and due. -/
  stored : ∀ p ∈ l, p ∈ r.peers ∧ due p
  /-- All that are due are listed, up to the limit. -/
  length : l.length = min limit (r.peers.countP due)
  /-- Those that are left out come after all that are listed. -/
  before : ∀ p ∈ r.peers, due p → p ∉ l → ∀ q ∈ l, q.Before p

variable {r r' : Registry} {due : Peer → Bool} {limit : Nat} {l l' : List Peer}

namespace Listing

/-- Of two lists of the first peers, neither shows a peer that the other does not. -/
theorem subset (h : r.Listing due limit l) (h' : r.Listing due limit l') : l ⊆ l' := by
  intro p hp
  by_contra hp'
  -- the lists are equally long, so the other one shows some peer that this one does not
  have other : ∃ q ∈ l', q ∉ l := by
    by_contra hnone
    push Not at hnone
    have within : l'.Subperm l := List.subperm_of_subset (List.Nodup.of_map _ h'.nodup) hnone
    have same := within.perm_of_length_le (h.length.trans h'.length.symm).le
    exact hp' (same.mem_iff.2 hp)
  obtain ⟨q, hq', hq⟩ := other
  have pq : p.Before q := h.before q (h'.stored q hq').1 (h'.stored q hq').2 hq p hp
  have qp : q.Before p := h'.before p (h.stored p hp).1 (h.stored p hp).2 hp' q hq'
  exact Std.Asymm.asymm _ _ pq qp

/-- There is one list of the first peers. -/
theorem eq (h : r.Listing due limit l) (h' : r.Listing due limit l') : l = l' :=
  h.sorted.eq_of_mem_iff h'.sorted fun _ => ⟨(subset h h' ·), (subset h' h ·)⟩

/-- A list of the first peers is one for any store with the same peers. -/
theorem congr (h : r.Listing due limit l) (same : ∀ p, p ∈ r'.peers ↔ p ∈ r.peers) :
    r'.Listing due limit l where
  nodup := h.nodup
  sorted := h.sorted
  stored p hp := ⟨(same p).2 (h.stored p hp).1, (h.stored p hp).2⟩
  length := by
    have perm : r'.peers.Perm r.peers :=
      (List.perm_ext_iff_of_nodup (List.Nodup.of_map _ r'.nodup) (List.Nodup.of_map _ r.nodup)).2
        same
    rw [h.length, perm.countP_eq]
  before p hp := h.before p ((same p).1 hp)

end Listing

/-! ## The stale peers -/

theorem length_stale (now nanos : Nat) (r : Registry) :
    (r.stale now (nanos / 1000000000)).length = r.peers.countP (Peer.isStale now nanos) := by
  rw [stale, List.length_mergeSort, List.countP_eq_length_filter,
    funext (Peer.isStale_eq_decide now nanos)]

/-- What is not among the first elements of an ordered list comes after them. -/
theorem rel_of_not_mem_take {α : Type} {R : α → α → Prop} {l : List α} {a b : α} {n : Nat}
    (h : l.Pairwise R) (hb : b ∈ l) (hnot : b ∉ l.take n) (ha : a ∈ l.take n) : R a b := by
  rw [← List.take_append_drop n l] at h hb
  exact (List.pairwise_append.1 h).2.2 a ha b ((List.mem_append.1 hb).resolve_left hnot)

/-- The list of stale peers shows the first of them. -/
theorem listing_listStale (r : Registry) (now nanos limit : Nat) :
    r.Listing (Peer.isStale now nanos) limit (r.listStale now (nanos / 1000000000) limit) where
  nodup := nodup_listStale ..
  sorted := (pairwise_stale ..).sublist (List.take_sublist ..)
  stored p hp := by
    obtain ⟨hstored, hstale⟩ := mem_listStale hp
    rw [Peer.isStale_eq_decide, decide_eq_true_eq]
    exact ⟨List.mem_of_find?_eq_some hstored, hstale⟩
  length := by
    rw [listStale_eq_take, List.length_take, length_stale]
  before p hp hdue hnot q hq := by
    rw [Peer.isStale_eq_decide, decide_eq_true_eq] at hdue
    have among := mem_stale_iff.2 ⟨find?_eq_some_of_mem hp, hdue⟩
    exact rel_of_not_mem_take (pairwise_stale ..) among hnot hq

/-- The list of stale peers is the one list of the first `limit` of the stored peers that were last
updated before the cutoff. Whatever has been stored and removed before, it is the same for any two
stores that now have the same peers, and the list under a smaller limit is the beginning of the list
under a larger one. -/
theorem listStale_exact (r : Registry) (now nanos limit : Nat) :
    (∀ l, l = r.listStale now (nanos / 1000000000) limit ↔
      r.Listing (Peer.isStale now nanos) limit l) ∧
    (∀ r' : Registry, (∀ p, p ∈ r'.peers ↔ p ∈ r.peers) →
      r'.listStale now (nanos / 1000000000) limit = r.listStale now (nanos / 1000000000) limit) ∧
    ∀ more, limit ≤ more → r.listStale now (nanos / 1000000000) limit <+:
      r.listStale now (nanos / 1000000000) more := by
  have listing := r.listing_listStale now nanos limit
  refine ⟨fun l => ?_, fun r' same => ?_, fun more hmore => ?_⟩
  · constructor
    · intro h
      rw [h]
      exact listing
    · intro h
      exact h.eq listing
  · exact (r'.listing_listStale now nanos limit).eq (listing.congr same)
  · rw [listStale_eq_take, listStale_eq_take]
    exact List.take_isPrefix_take.2 (.inl hmore)

end Registry

namespace Newcomer

/-- Two peers that were last updated at the same time. -/
def twins : Peer × Peer := ({ peer with id := ⟨"a"⟩ }, { peer with id := ⟨"b"⟩ })

/-- Both are stored, one after the other. -/
def ordered : Registry := .ofList [twins.1, twins.2]

/-- They are stored the other way round, and a third peer between them, which is removed again. -/
def reordered : Registry :=
  (Registry.ofList [twins.2, { peer with id := ⟨"c"⟩ }, twins.1]).erase ⟨"c"⟩

end Newcomer

/-- Under a window of two and a half seconds, of two peers as old as each other the same one is
listed in whatever order they were stored, and it stays the first when the other is listed too. -/
theorem listStale_exact_reordered :
    (∀ p, p ∈ Newcomer.reordered.peers ↔ p ∈ Newcomer.ordered.peers) ∧ 1 ≤ 2 ∧
      Newcomer.reordered.listStale 10 2 1 = Newcomer.ordered.listStale 10 2 1 ∧
      (Newcomer.ordered.listStale 10 2 1).length = 1 ∧
      Newcomer.ordered.listStale 10 2 1 <+: Newcomer.ordered.listStale 10 2 2 := by
  have same : ∀ p, p ∈ Newcomer.reordered.peers ↔ p ∈ Newcomer.ordered.peers := by
    intro p
    show p ∈ [Newcomer.twins.2, Newcomer.twins.1] ↔ p ∈ [Newcomer.twins.1, Newcomer.twins.2]
    rw [List.mem_pair, List.mem_pair, or_comm]
  obtain ⟨one, depends, begins⟩ := Registry.listStale_exact Newcomer.ordered 10 2500000000 1
  exact ⟨same, by decide, depends _ same, ((one _).1 rfl).length, begins 2 (by decide)⟩

end PeerCensus
