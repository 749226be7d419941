import PeerCensus.Proofs.Store.Registry

/-!
# The order of stale peers

Stale peers are listed from the one that was updated first, and by id among those updated at the same
time. Ids are distinct, so each of two stale peers comes before or after the other, and there is one
list of all of them.

Results:
* `Registry.pairwise_stale`: each stale peer is listed before all that come after it.
* `Registry.take_listStale`: a list that is long enough shows the first of the peers that are not
  passed over.
-/

namespace PeerCensus

namespace PeerId

theorem le_iff {a b : PeerId} : a.le b = true ↔ a.text ≤ b.text := by
  rw [le, Bool.not_eq_true', decide_eq_false_iff_not, String.not_lt]

theorem ext_text {a b : PeerId} (h : a.text = b.text) : a = b := by
  cases a
  cases b
  exact congrArg mk h

end PeerId

/-- Whether `p` is listed before `q` when both are stale: it was updated before, or at the same time and
its id is the smaller one. -/
def Peer.Before (p q : Peer) : Prop :=
  p.lastUpdated < q.lastUpdated ∨ p.lastUpdated = q.lastUpdated ∧ p.id.text < q.id.text

namespace Registry

theorem oldestFirst_iff {a b : Peer} : oldestFirst a b = true ↔
    a.lastUpdated < b.lastUpdated ∨ a.lastUpdated = b.lastUpdated ∧ a.id.text ≤ b.id.text := by
  simp only [oldestFirst, Bool.or_eq_true, Bool.and_eq_true, decide_eq_true_eq, beq_iff_eq,
    PeerId.le_iff]

theorem oldestFirst_trans (a b c : Peer) (hab : oldestFirst a b = true)
    (hbc : oldestFirst b c = true) : oldestFirst a c = true := by
  rw [oldestFirst_iff] at *
  rcases hab with hab | ⟨hab, hab'⟩
  · rcases hbc with hbc | ⟨hbc, -⟩
    · exact .inl (Nat.lt_trans hab hbc)
    · exact .inl (hbc ▸ hab)
  · rcases hbc with hbc | ⟨hbc, hbc'⟩
    · exact .inl (hab ▸ hbc)
    · exact .inr ⟨hab.trans hbc, String.le_trans hab' hbc'⟩

theorem oldestFirst_total (a b : Peer) : (oldestFirst a b || oldestFirst b a) = true := by
  rw [Bool.or_eq_true, oldestFirst_iff, oldestFirst_iff]
  rcases Nat.lt_trichotomy a.lastUpdated b.lastUpdated with hlt | heq | hgt
  · exact .inl (.inl hlt)
  · exact (String.le_total a.id.text b.id.text).imp (.inr ⟨heq, ·⟩) (.inr ⟨heq.symm, ·⟩)
  · exact .inr (.inl hgt)

/-- Of peers with distinct ids one is listed before the other. -/
theorem before_of_oldestFirst {a b : Peer} (h : oldestFirst a b = true) (hne : a.id ≠ b.id) :
    a.Before b := by
  rcases oldestFirst_iff.1 h with hlt | ⟨heq, hle⟩
  · exact .inl hlt
  · refine .inr ⟨heq, String.not_le.1 fun hge => hne ?_⟩
    exact PeerId.ext_text (String.le_antisymm hle hge)

variable {now window : Nat} {r : Registry}

/-- Each stale peer is listed before all that come after it. -/
theorem pairwise_stale (now window : Nat) (r : Registry) :
    (r.stale now window).Pairwise Peer.Before := by
  have sorted : (r.stale now window).Pairwise fun a b => oldestFirst a b = true :=
    List.pairwise_mergeSort oldestFirst_trans oldestFirst_total _
  exact sorted.imp₂ (fun _ _ => before_of_oldestFirst) (List.pairwise_map.1 (nodup_stale now window r))

/-- What is left of the first elements of a list begins like what is left of all of it, if there are
enough of them to make up for those that are passed over. -/
theorem take_filter_take {α : Type} {kept : α → Bool} {l : List α} {wanted limit : Nat}
    (h : wanted + l.countP (fun a => !kept a) ≤ limit) :
    ((l.take limit).filter kept).take wanted = (l.filter kept).take wanted := by
  induction l generalizing wanted limit with
  | nil => rw [List.take_nil]
  | cons a l ih =>
    cases wanted with
    | zero => rw [List.take_zero, List.take_zero]
    | succ wanted =>
      cases limit with
      | zero => omega
      | succ limit =>
        rw [List.take_succ_cons]
        cases ha : kept a with
        | true =>
          -- one that is wanted, among one more
          rw [List.countP_cons_of_neg (by simp [ha])] at h
          rw [List.filter_cons_of_pos ha, List.filter_cons_of_pos ha, List.take_succ_cons,
            List.take_succ_cons, ih (by omega)]
        | false =>
          -- one that is passed over, among one more
          rw [List.countP_cons_of_pos (by simp [ha])] at h
          have neg : ¬kept a = true := by simp [ha]
          rw [List.filter_cons_of_neg neg, List.filter_cons_of_neg neg, ih (by omega)]

/-- A list of `limit` stale peers is long enough to find the first `wanted` that are none of `passed`,
if `limit` is at least `wanted` and the number of these together. -/
theorem take_listStale {wanted limit : Nat} {passed : List PeerId}
    (h : wanted + passed.length ≤ limit) :
    ((r.listStale now window limit).filter fun p => !passed.contains p.id).take wanted =
      ((r.stale now window).filter fun p => !passed.contains p.id).take wanted := by
  rw [listStale_eq_take]
  refine take_filter_take (Nat.le_trans (Nat.add_le_add_left ?_ wanted) h)
  -- the stale peers that are passed over have distinct ids, which are all in `passed`
  have ids : (((r.stale now window).filter fun p => passed.contains p.id).map Peer.id).Nodup :=
    (nodup_stale now window r).sublist (List.filter_sublist.map _)
  have inside : ((r.stale now window).filter fun p => passed.contains p.id).map Peer.id ⊆ passed := by
    intro id hid
    obtain ⟨p, hp, rfl⟩ := List.mem_map.1 hid
    exact List.contains_iff_mem.1 (List.mem_filter.1 hp).2
  simpa only [Bool.not_not, List.countP_eq_length_filter, List.length_map] using
    ids.length_le_of_subset inside

end Registry

end PeerCensus
