import PeerCensus.Proofs.Discovery.Intake
import PeerCensus.Proofs.Keeper.Outcome

/-!
# What happens to stored peers

Seen from the store, a history is a list of events: a node is discovered, a sequence of attempts on a
stored peer comes to its end, or the store begins to refuse other calls than before. Each event
changes what is stored under one id at the most.

Results:
* `PeerStore.find?_after_tried`: what is stored under each id after a sequence of attempts.
* `PeerStore.origin_of_after`: where a peer that is stored after an event comes from.
-/

namespace PeerCensus

/-- What can happen to stored peers. -/
inductive Event
  /-- A node is discovered. -/
  | discovered (r : NodeRecord)
  /-- From now on the store refuses other calls than before. -/
  | outage (down : List StoreCall)
  /-- A sequence of attempts on the peer stored under `id` comes to its verdict at the time `now`. -/
  | tried (clock : ChainClock) (resolve : Resolver) (id : PeerId) (now : Nat) (verdict : Verdict)

/-- What is left of a peer when the outcome of its sequence has been handed to the store, which may
not have taken it. -/
def Verdict.leaving (clock : ChainClock) (resolve : Resolver) (now : Nat) (p : Peer)
    (store : PeerStore) (verdict : Verdict) : Option Peer :=
  if (verdict.conclude clock resolve now p store).1.isStored then verdict.result clock resolve now p
  else some p

namespace PeerStore

/-- The store after an event. A sequence begins with the peer as it is stored; if there is none, there
is no sequence. -/
def after (allowed : AllowedForks) (s : PeerStore) : Event → PeerStore
  | .discovered r => (ingest allowed r s).2
  | .outage down => { s with down }
  | .tried clock resolve id now verdict =>
    match s.registry.find? id with
    | some p => (verdict.conclude clock resolve now p s).2
    | none => s

/-- The store after several events. -/
def afterAll (allowed : AllowedForks) (s : PeerStore) (events : List Event) : PeerStore :=
  events.foldl (after allowed) s

variable {allowed : AllowedForks} {s : PeerStore} {id other : PeerId}

/-- A sequence of attempts changes what is stored of its peer, and nothing else. -/
theorem find?_after_tried (allowed : AllowedForks) (s : PeerStore) (clock : ChainClock)
    (resolve : Resolver) (id : PeerId) (now : Nat) (verdict : Verdict) (other : PeerId) :
    (s.after allowed (.tried clock resolve id now verdict)).registry.find? other =
      if other = id then
        (s.registry.find? id).bind fun p => verdict.leaving clock resolve now p s
      else s.registry.find? other := by
  rw [after]
  split
  · rename_i p hp
    obtain rfl := Registry.id_of_find?_eq_some hp
    rw [hp, Option.bind_some, Verdict.leaving]
    rcases verdict.leaves_conclude clock resolve now p s with
      ⟨hrefused, same⟩ | ⟨hdone, hself, hothers⟩
    · rw [hrefused, same]
      split
      · rename_i hid
        rw [hid, hp]
        rfl
      · rfl
    · rw [hdone, if_pos rfl]
      split
      · rename_i hid
        rw [hid, hself]
      · rename_i hid
        exact hothers other hid
  · rename_i hnone
    rw [hnone, Option.bind_none]
    split
    · rename_i hid
      rw [hid, hnone]
    · rfl

/-- While the store takes its outcome, a sequence leaves what the outcome makes of the peer. -/
theorem find?_after_tried_of_up (allowed : AllowedForks) {clock : ChainClock} {resolve : Resolver}
    {now : Nat} {verdict : Verdict} {p : Peer} {call : StoreCall}
    (hp : s.registry.find? id = some p) (hcall : verdict.call? p = some call)
    (hup : call ∉ s.down) :
    (s.after allowed (.tried clock resolve id now verdict)).registry.find? id =
      verdict.result clock resolve now p := by
  obtain rfl := Registry.id_of_find?_eq_some hp
  have hstored : (verdict.conclude clock resolve now p s).1.isStored = true :=
    (Verdict.isStored_conclude_iff (by rw [hp]; rfl)).2 ⟨call, hup, hcall⟩
  rw [find?_after_tried, if_pos rfl, hp, Option.bind_some, Verdict.leaving, if_pos hstored]

/-- A sequence of attempts does not change which calls are refused. -/
theorem down_after_tried (allowed : AllowedForks) (s : PeerStore) (clock : ChainClock)
    (resolve : Resolver) (id : PeerId) (now : Nat) (verdict : Verdict) :
    (s.after allowed (.tried clock resolve id now verdict)).down = s.down := by
  rw [after]
  split
  · exact Verdict.down_conclude ..
  · rfl

/-- A peer that is stored after an event was stored before, or it is what a discovered node becomes,
or what an outcome has made of the peer stored before. -/
theorem origin_of_after {e : Event} {q : Peer}
    (h : (s.after allowed e).registry.find? id = some q) :
    s.registry.find? id = some q ∨
      (∃ r, e = .discovered r ∧ allowed.candidate r = .ok q) ∨
      ∃ clock resolve now verdict p, e = .tried clock resolve id now verdict ∧
        s.registry.find? id = some p ∧ verdict.result clock resolve now p = some q := by
  cases e with
  | discovered r =>
    rw [after, find?_ingest] at h
    split at h
    · cases hcandidate : allowed.candidate r with
      | error reason =>
        rw [hcandidate] at h
        cases h
      | ok p =>
        rw [hcandidate] at h
        cases h
        exact .inr (.inl ⟨r, rfl, hcandidate⟩)
    · exact .inl h
  | outage down => exact .inl h
  | tried clock resolve id' now verdict =>
    rw [find?_after_tried] at h
    split at h
    · rename_i hid
      subst hid
      obtain ⟨p, hp, hleft⟩ := Option.bind_eq_some_iff.1 h
      rw [Verdict.leaving] at hleft
      split at hleft
      · exact .inr (.inr ⟨clock, resolve, now, verdict, p, rfl, hp, hleft⟩)
      · exact .inl (hp.trans hleft)
    · exact .inl h

end PeerStore

end PeerCensus
