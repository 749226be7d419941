import PeerCensus.Proofs.Store.Events

/-!
# When a new peer is due

A new peer counts as last updated at time zero. Being stale means being last updated before the
cutoff, which lies the window before the present, but never before time zero. So a new peer is due as
soon as the window is shorter than the time that has passed since zero, and under a longer window no
peer is ever due.

Results:
* `PeerStore.find?_afterAll_of_untried`: a peer that is not tried stays as it is.
* `listed_new_iff`: when a peer that was taken in and not tried since is listed.
* `unlisted_new`: a peer that was just taken in and is not listed.
-/

namespace PeerCensus

/-- Whether the event is a sequence of attempts on the peer stored under `id`. -/
def Event.Tries (id : PeerId) : Event → Prop
  | tried _ _ other _ _ => other = id
  | discovered _ | outage _ => False

namespace PeerStore

variable {s : PeerStore} {id : PeerId} {p : Peer}

/-- Only a sequence of attempts on it changes a stored peer. -/
theorem find?_after_of_untried (allowed : AllowedForks) {e : Event} (he : ¬ e.Tries id)
    (hp : s.registry.find? id = some p) : (s.after allowed e).registry.find? id = some p := by
  cases e with
  | discovered r =>
    rw [after, find?_ingest, if_neg, hp]
    rintro ⟨hcreated, rfl⟩
    obtain ⟨_, -, hnone, -⟩ := exists_of_ingest_created hcreated
    rw [hp] at hnone
    cases hnone
  | outage down => exact hp
  | tried clock resolve other now verdict =>
    rw [find?_after_tried, if_neg fun h => he h.symm, hp]

theorem find?_afterAll_of_untried (allowed : AllowedForks) {events : List Event}
    (he : ∀ e ∈ events, ¬ e.Tries id) (hp : s.registry.find? id = some p) :
    (s.afterAll allowed events).registry.find? id = some p := by
  induction events generalizing s with
  | nil => exact hp
  | cons e events ih =>
    rw [List.forall_mem_cons] at he
    exact ih he.2 (find?_after_of_untried allowed he.1 hp)

end PeerStore

/-- A peer that has been taken in, and has not been tried since, is listed among as many peers as are
stored exactly if the window is shorter than the time since the epoch. -/
theorem listed_new_iff {allowed : AllowedForks} {store : PeerStore} {r : NodeRecord}
    (hcreated : (ingest allowed r store).1 = .created) (events : List Event)
    (huntried : ∀ e ∈ events, ¬ e.Tries r.peerId) {limit : Nat}
    (hlimit : ((ingest allowed r store).2.afterAll allowed events).registry.size ≤ limit) :
    ∃ p, allowed.candidate r = .ok p ∧ ∀ now window,
      p ∈ ((ingest allowed r store).2.afterAll allowed events).registry.listStale now window limit ↔
        window < now := by
  obtain ⟨p, hp, -, hstored⟩ := exists_of_ingest_created hcreated
  have hkept := PeerStore.find?_afterAll_of_untried allowed huntried hstored
  rw [← AllowedForks.id_of_candidate_eq_ok hp] at hkept
  refine ⟨p, hp, fun now window => ?_⟩
  rw [Registry.mem_listStale_iff hlimit, (AllowedForks.candidate_score hp).2]
  constructor
  · rintro ⟨-, hdue⟩
    omega
  · intro hwindow
    exact ⟨hkept, by omega⟩

/-- A new peer is due under a window of one day, although the store refuses to change it. -/
theorem listed_new_newcomer :
    (ingest Newcomer.forks Newcomer.record Newcomer.store).1 = .created ∧
      Newcomer.peer ∈ ((ingest Newcomer.forks Newcomer.record Newcomer.store).2.afterAll
        Newcomer.forks [.outage [.update]]).registry.listStale 1700000000 86400 10 := by
  refine ⟨Newcomer.ingest_record, ?_⟩
  obtain ⟨p, hp, hlisted⟩ := listed_new_iff Newcomer.ingest_record [.outage [.update]]
    (by simp [Event.Tries]) (show _ ≤ 10 by decide)
  cases hp
  exact (hlisted 1700000000 86400).2 (by decide)

/-- A peer that was just taken in is not due while the window is as long as the time since the
epoch. -/
theorem unlisted_new :
    (ingest Newcomer.forks Newcomer.record Newcomer.store).1 = .created ∧
      Newcomer.forks.candidate Newcomer.record = .ok Newcomer.peer ∧
      (ingest Newcomer.forks Newcomer.record Newcomer.store).2.registry.size ≤ 10 ∧
      Newcomer.peer ∉ (ingest Newcomer.forks Newcomer.record Newcomer.store).2.registry.listStale
        1700000000 1700000000 10 := by
  refine ⟨Newcomer.ingest_record, Newcomer.candidate_record, by decide, ?_⟩
  rw [Registry.listStale_eq_nil_of_le (Nat.le_refl _)]
  exact List.not_mem_nil

end PeerCensus
