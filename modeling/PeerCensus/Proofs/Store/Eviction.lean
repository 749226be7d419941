import Mathlib.Data.List.DropRight
import PeerCensus.Proofs.Store.Events

/-!
# How long a peer stays stored

Of a history only three things matter to the score of a peer: that it was created, that it answered,
and that a sequence on it failed; the last two only if the outcome was stored. The score of a stored
peer is the good one less the failures since it was created or has answered last, and the third such
failure, and nothing else, removes it.

Results:
* `PeerStore.score?_after`, `PeerStore.score?_afterAll`: what an event and what a history does to a
  score.
* `Note.score_eq`: the score after a history in terms of the failures at its end.
* `PeerStore.removed_iff`: the score of a stored peer, and when it is removed.
-/

namespace PeerCensus

/-- What is noted of a peer. -/
inductive Note
  | created
  | answered
  | failed
  deriving DecidableEq

/-- What is noted of the peer of a sequence whose outcome is stored. -/
def Verdict.note? : Verdict → Option Note
  | answered _ => some .answered
  | exhausted => some .failed
  | cancelled => none

/-- What is noted of the peer with the id `id` when something happens. -/
def Event.note? (allowed : AllowedForks) (id : PeerId) (s : PeerStore) : Event → Option Note
  | discovered r =>
    if (ingest allowed r s).1 = .created ∧ id = r.peerId then some .created else none
  | outage _ => none
  | tried clock resolve other now verdict =>
    if id = other then
      (s.registry.find? id).bind fun p =>
        if (verdict.conclude clock resolve now p s).1.isStored then verdict.note? else none
    else none

namespace PeerStore

/-- All that is noted of a peer when several things happen, in order. -/
def notes (allowed : AllowedForks) (id : PeerId) : PeerStore → List Event → List Note
  | _, [] => []
  | s, e :: events => (e.note? allowed id s).toList ++ notes allowed id (s.after allowed e) events

/-- The score of the peer stored under an id. -/
def score? (s : PeerStore) (id : PeerId) : Option Score :=
  (s.registry.find? id).map Peer.score

end PeerStore

namespace Note

/-- The failures since the last note of another kind. -/
def failures (notes : List Note) : Nat :=
  (notes.rtakeWhile (· = failed)).length

/-- The score after a note; none if the peer is not stored any more. -/
def score (before : Option Score) : Note → Option Score
  | created | answered => some .good
  | failed => before.bind fun s => if s.lowered.isBad then none else some s.lowered

theorem failures_concat (notes : List Note) (n : Note) :
    failures (notes ++ [n]) = if n = failed then failures notes + 1 else 0 := by
  rw [failures, List.rtakeWhile_concat]
  by_cases h : n = failed <;> simp [h, failures]

/-- One more failure is the last one exactly if it is the third. -/
theorem lowered_of_failures {s : Score} {n : Nat} (hs : s.value = Score.good.value - n) (hn : n < 3) :
    (s.lowered.isBad = true ↔ n + 1 = 3) ∧
      (n + 1 ≠ 3 → s.lowered.value = Score.good.value - (n + 1 : Nat)) := by
  rw [Score.isBad_iff, Score.value_lowered, hs, show Score.good.value = 3 from rfl]
  omega

/-- The score after several notes of a peer that was not stored before them. -/
theorem score_eq {notes : List Note} {s : Score} (h : notes.foldl score none = some s) :
    s.value = Score.good.value - failures notes ∧ failures notes < 3 := by
  induction notes using List.reverseRecOn generalizing s with
  | nil => cases h
  | append_singleton notes n ih =>
    rw [List.foldl_append, List.foldl_cons, List.foldl_nil] at h
    rw [failures_concat]
    cases n with
    | created | answered =>
      cases h
      rw [if_neg nofun]
      decide
    | failed =>
      -- a failure counts only for a peer that was stored before it, which has fewer than three
      obtain ⟨before, hbefore, hs⟩ := Option.bind_eq_some_iff.1 h
      obtain ⟨hvalue, hfew⟩ := ih hbefore
      obtain ⟨hlast, hlowered⟩ := lowered_of_failures hvalue hfew
      split at hs
      · cases hs
      · rename_i hbad
        cases hs
        have more : failures notes + 1 ≠ 3 := fun h => hbad (hlast.2 h)
        rw [if_pos rfl]
        exact ⟨hlowered more, by omega⟩

end Note

namespace PeerStore

variable {allowed : AllowedForks} {s : PeerStore} {id : PeerId}

/-- An outcome does to the score of its peer what is noted of it. -/
theorem score_leaving (clock : ChainClock) (resolve : Resolver) (now : Nat) (p : Peer)
    (s : PeerStore) (verdict : Verdict) :
    (verdict.leaving clock resolve now p s).map Peer.score =
      (if (verdict.conclude clock resolve now p s).1.isStored then verdict.note?
        else none).toList.foldl Note.score (some p.score) := by
  rw [Verdict.leaving]
  split
  · cases verdict with
    | answered findings => rfl
    | exhausted =>
      show (if p.score.lowered.isBad then none else some (p.demoted now)).map Peer.score =
        if p.score.lowered.isBad then none else some p.score.lowered
      split <;> rfl
    | cancelled => rfl
  · rfl

/-- An event does to the score of a peer what is noted of it. -/
theorem score?_after (allowed : AllowedForks) (id : PeerId) (s : PeerStore) (e : Event) :
    (s.after allowed e).score? id =
      (e.note? allowed id s).toList.foldl Note.score (s.score? id) := by
  rw [score?]
  cases e with
  | discovered r =>
    rw [after, find?_ingest, Event.note?]
    split
    · rename_i hcreated
      obtain ⟨p, hp, -, -⟩ := exists_of_ingest_created hcreated.1
      rw [hp]
      exact congrArg some (AllowedForks.candidate_score hp).1
    · rfl
  | outage down => rfl
  | tried clock resolve other now verdict =>
    rw [find?_after_tried, Event.note?]
    by_cases hid : id = other
    · subst hid
      rw [if_pos rfl, if_pos rfl, score?]
      cases s.registry.find? id with
      | none => rfl
      | some p => exact score_leaving clock resolve now p s verdict
    · rw [if_neg hid, if_neg hid]
      rfl

theorem score?_afterAll (allowed : AllowedForks) (id : PeerId) (s : PeerStore)
    (events : List Event) :
    (s.afterAll allowed events).score? id =
      (s.notes allowed id events).foldl Note.score (s.score? id) := by
  induction events generalizing s with
  | nil => rfl
  | cons e events ih =>
    rw [notes, List.foldl_append, ← score?_after, ← ih]
    rfl

/-! ## When a peer is removed -/

/-- Of a stored peer the verdicts of its sequences are noted, if their outcomes are stored, and nothing
else. -/
theorem note?_eq_some_iff {e : Event} {n : Note} {p : Peer} (hp : s.registry.find? id = some p) :
    e.note? allowed id s = some n ↔
      ∃ clock resolve now verdict, e = .tried clock resolve id now verdict ∧
        verdict.note? = some n ∧ ∃ call ∉ s.down, verdict.call? p = some call := by
  cases e with
  | discovered r =>
    rw [Event.note?]
    split
    · -- a stored peer is not created again
      rename_i hcreated
      obtain ⟨q, -, hnone, -⟩ := exists_of_ingest_created hcreated.1
      rw [← hcreated.2, hp] at hnone
      cases hnone
    · simp
  | outage down => simp [Event.note?]
  | tried clock resolve other now verdict =>
    obtain rfl := Registry.id_of_find?_eq_some hp
    have known : (s.registry.find? p.id).isSome = true := by rw [hp]; rfl
    rw [Event.note?]
    split
    · rename_i hid
      subst hid
      rw [hp, Option.bind_some, Option.ite_none_right_eq_some, Verdict.isStored_conclude_iff known]
      constructor
      · rintro ⟨hcall, hn⟩
        exact ⟨clock, resolve, now, verdict, rfl, hn, hcall⟩
      · rintro ⟨_, _, _, _, ⟨⟩, hn, hcall⟩
        exact ⟨hcall, hn⟩
    · rename_i hid
      constructor
      · exact nofun
      · rintro ⟨_, _, _, _, ⟨⟩, -, -⟩
        exact absurd rfl hid

/-- A failure is a sequence that is exhausted, and it counts exactly if the store takes the call that it
comes to. -/
theorem note?_eq_failed_iff {e : Event} {p : Peer} (hp : s.registry.find? id = some p) :
    e.note? allowed id s = some .failed ↔
      ∃ clock resolve now, e = .tried clock resolve id now .exhausted ∧
        (if p.score.lowered.isBad then StoreCall.delete else StoreCall.update) ∉ s.down := by
  rw [note?_eq_some_iff hp]
  constructor
  · rintro ⟨clock, resolve, now, verdict, rfl, hn, call, hup, hcall⟩
    cases verdict with
    | exhausted =>
      cases hcall
      exact ⟨clock, resolve, now, rfl, hup⟩
    | answered | cancelled => cases hn
  · rintro ⟨clock, resolve, now, rfl, hup⟩
    exact ⟨clock, resolve, now, _, rfl, rfl, _, hup, rfl⟩

theorem note?_eq_answered_iff {e : Event} {p : Peer} (hp : s.registry.find? id = some p) :
    e.note? allowed id s = some .answered ↔
      ∃ clock resolve now findings, e = .tried clock resolve id now (.answered findings) ∧
        StoreCall.update ∉ s.down := by
  rw [note?_eq_some_iff hp]
  constructor
  · rintro ⟨clock, resolve, now, verdict, rfl, hn, call, hup, hcall⟩
    cases verdict with
    | answered findings =>
      cases hcall
      exact ⟨clock, resolve, now, findings, rfl, hup⟩
    | exhausted | cancelled => cases hn
  · rintro ⟨clock, resolve, now, findings, rfl, hup⟩
    exact ⟨clock, resolve, now, _, rfl, rfl, _, hup, rfl⟩

/-- A stored peer is removed by a failure that leaves it with a bad score, and by nothing else. -/
theorem find?_after_eq_none_iff {e : Event} {p : Peer} (hp : s.registry.find? id = some p) :
    (s.after allowed e).registry.find? id = none ↔
      e.note? allowed id s = some .failed ∧ p.score.lowered.isBad = true := by
  have hscore := score?_after allowed id s e
  rw [show s.score? id = some p.score by rw [score?, hp]; rfl] at hscore
  rw [← Option.map_eq_none_iff (f := Peer.score), ← score?, hscore]
  cases e.note? allowed id s with
  | none => simp
  | some n => cases n <;> simp [Note.score]

/-- The history of a peer that was not stored at first: while it is stored, its score is the good one
less the failures that were stored since it was created or has answered last. What happens next
removes it if and only if that is another failure, and the third of these. A failure is a sequence
that is exhausted and whose outcome the store takes, and an answer one that is answered. -/
theorem removed_iff (allowed : AllowedForks) {start : PeerStore}
    (hstart : start.registry.find? id = none) (events : List Event) {p : Peer}
    (hp : (start.afterAll allowed events).registry.find? id = some p) :
    let s := start.afterAll allowed events
    let n := Note.failures (start.notes allowed id events)
    p.score.value = Score.good.value - n ∧ n < 3 ∧ ∀ e : Event,
      ((s.after allowed e).registry.find? id = none ↔
        e.note? allowed id s = some .failed ∧ n + 1 = 3) ∧
      (e.note? allowed id s = some .failed ↔
        ∃ clock resolve now, e = .tried clock resolve id now .exhausted ∧
          (if n + 1 = 3 then StoreCall.delete else StoreCall.update) ∉ s.down) ∧
      (e.note? allowed id s = some .answered ↔
        ∃ clock resolve now findings, e = .tried clock resolve id now (.answered findings) ∧
          StoreCall.update ∉ s.down) := by
  intro s n
  have hscore : (start.notes allowed id events).foldl Note.score none = some p.score := by
    have hnone : start.score? id = none := by rw [score?, hstart]; rfl
    rw [← hnone, ← score?_afterAll, score?, hp]
    rfl
  obtain ⟨hvalue, hfew⟩ := Note.score_eq hscore
  have hlast := (Note.lowered_of_failures hvalue hfew).1
  refine ⟨hvalue, hfew, fun e => ⟨?_, ?_, note?_eq_answered_iff hp⟩⟩
  · rw [find?_after_eq_none_iff hp, hlast]
  · rw [note?_eq_failed_iff hp]
    simp only [hlast]
    rfl

end PeerStore

namespace Newcomer

/-- The peer is tried in vain. -/
def silence (now : Nat) : Event :=
  .tried .mainnet (fun _ => .error .notFound) record.peerId now .exhausted

theorem down_silence (s : PeerStore) (now : Nat) : (s.after forks (silence now)).down = s.down :=
  PeerStore.down_after_tried ..

/-- The store after the peer has been discovered and tried in vain once. -/
def wary : PeerStore :=
  (store.after forks (.discovered record)).after forks (silence 1700003600)

/-- The store after the peer has been tried in vain again. -/
def doubtful : PeerStore := wary.after forks (silence 1700007200)

/-- The peer as it is stored then. -/
def silenced : Peer := (peer.demoted 1700003600).demoted 1700007200

theorem down_wary : wary.down = [] :=
  (down_silence _ _).trans (down_ingest forks record store)

theorem find?_doubtful : doubtful.registry.find? record.peerId = some silenced := by
  have up : (store.after forks (.discovered record)).down = [] := down_ingest forks record store
  have first : wary.registry.find? record.peerId = some (peer.demoted 1700003600) :=
    PeerStore.find?_after_tried_of_up forks find?_record rfl (up ▸ List.not_mem_nil)
  exact PeerStore.find?_after_tried_of_up forks first rfl (down_wary ▸ List.not_mem_nil)

end Newcomer

/-- A peer that has failed twice has one point left, and the third failure removes it. -/
theorem removed_iff_silenced :
    Newcomer.store.registry.find? Newcomer.record.peerId = none ∧
      Newcomer.doubtful.registry.find? Newcomer.record.peerId = some Newcomer.silenced ∧
      Newcomer.silenced.score = ⟨1⟩ ∧
      (Newcomer.doubtful.after Newcomer.forks (Newcomer.silence 1700010800)).registry.find?
        Newcomer.record.peerId = none := by
  refine ⟨rfl, Newcomer.find?_doubtful, by decide, ?_⟩
  have hone : Newcomer.silenced.score.value = 1 := by decide
  obtain ⟨hvalue, -, hnext⟩ := PeerStore.removed_iff Newcomer.forks
    (show Newcomer.store.registry.find? Newcomer.record.peerId = none from rfl)
    [.discovered Newcomer.record, Newcomer.silence 1700003600, Newcomer.silence 1700007200]
    Newcomer.find?_doubtful
  have third : Note.failures (Newcomer.store.notes Newcomer.forks Newcomer.record.peerId
      [.discovered Newcomer.record, Newcomer.silence 1700003600, Newcomer.silence 1700007200]) + 1 =
      3 := by
    have : Score.good.value = 3 := rfl
    omega
  obtain ⟨hremoved, hfailed, -⟩ := hnext (Newcomer.silence 1700010800)
  refine hremoved.2 ⟨hfailed.2 ⟨_, _, _, rfl, ?_⟩, third⟩
  have up : Newcomer.doubtful.down = [] := (Newcomer.down_silence _ _).trans Newcomer.down_wary
  exact up ▸ List.not_mem_nil

end PeerCensus
