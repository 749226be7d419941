import PeerCensus.Proofs.Keeper.Run
import PeerCensus.Proofs.Store.Staleness

/-!
# Which peers a selection chooses

A selection counts the free permits and the peers in flight, and asks for as many stale peers as both
numbers together. While it does so the workers go on. But only the selector puts peers in flight, so
that when those in flight are passed over there are never more of them than were counted, and the list
is long enough.

Results:
* `steady_performAll`: what others do does not move the selector and puts no peer in flight.
* `exists_asking`: when stale peers are asked for, they are enough.
* `selector_of_counted`: which of them are chosen.
* `chooses_first`: both together, for a whole selection.
-/

namespace PeerCensus.Keeper

/-- Who makes a step. -/
inductive Party
  /-- Whoever writes to the store beside the workers, or tells the keeper to stop. -/
  | outside
  | selector
  | worker
  deriving DecidableEq

/-- Who makes a step. -/
def Action.party : Action → Party
  | .create _ | .outage _ | .shutDown => .outside
  | .report | .begin | .count | .list _ | .choose | .acquire | .mark | .send | .finish | .abandon
  | .close => .selector
  | .receive _ | .settle .. | .leave _ | .release _ | .retire _ => .worker

namespace Machine

variable {c : Context} {m m' : Machine} {a : Action} {actions : List Action}

/-! ## What others do -/

/-- The selector is where it was in `m`, and only peers that were in flight then are. -/
structure Steady (m m' : Machine) : Prop where
  selector : m'.selector = m.selector
  inFlight : m'.inFlight.Sublist m.inFlight

theorem Steady.refl (m : Machine) : Steady m m := ⟨rfl, .refl _⟩

theorem Steady.trans {m'' : Machine} (h : Steady m m') (h' : Steady m' m'') : Steady m m'' :=
  ⟨h'.selector.trans h.selector, h'.inFlight.trans h.inFlight⟩

/-- A step of another party does not move the selector, and at most takes a peer out of flight. -/
theorem steady_of_makes (h : Makes c m a m') (ha : a.party ≠ .selector) : Steady m m' := by
  cases h with
  | create | outage | shutDown | receive | settle | release | retire => exact ⟨rfl, .refl _⟩
  | leave => exact ⟨rfl, List.erase_sublist⟩
  | report | begin | count | list | listRefused | choose | acquire | mark | send | finish | abandon
  | close => exact absurd rfl ha

/-- What happens outside takes no peer out of flight either. -/
theorem inFlight_of_makes (h : Makes c m a m') (ha : a.party = .outside) :
    m'.inFlight = m.inFlight := by
  cases h with
  | create | outage | shutDown => rfl
  | receive | settle | leave | release | retire => cases ha
  | report | begin | count | list | listRefused | choose | acquire | mark | send | finish | abandon
  | close => cases ha

/-- What others do does not move the selector and puts no peer in flight. -/
theorem steady_performAll (h : ∀ a ∈ actions, a.party ≠ .selector) :
    Steady m (m.performAll c actions) := by
  induction actions generalizing m with
  | nil => exact .refl m
  | cons a actions ih =>
    obtain ⟨ha, hactions⟩ := List.forall_mem_cons.1 h
    have first : Steady m (m.perform c a) := by
      rcases perform_eq c m a with same | hmakes
      · rw [same]
        exact .refl m
      · exact steady_of_makes hmakes ha
    exact first.trans (ih hactions)

theorem inFlight_performAll (h : ∀ a ∈ actions, a.party = .outside) :
    (m.performAll c actions).inFlight = m.inFlight := by
  induction actions generalizing m with
  | nil => rfl
  | cons a actions ih =>
    obtain ⟨ha, hactions⟩ := List.forall_mem_cons.1 h
    have first : (m.perform c a).inFlight = m.inFlight := by
      rcases perform_eq c m a with same | hmakes
      · rw [same]
      · exact inFlight_of_makes hmakes ha
    exact (ih hactions).trans first

theorem performAll_append (c : Context) (m : Machine) (actions actions' : List Action) :
    m.performAll c (actions ++ actions') = (m.performAll c actions).performAll c actions' :=
  List.foldl_append

/-! ## A selection -/

/-- When stale peers are asked for, they are enough: as many as are wanted, and those in flight. -/
theorem exists_asking {before after : List Action} (hidle : m.selector = .idle)
    (hbefore : ∀ a ∈ before, a.party ≠ .selector) (hafter : ∀ a ∈ after, a.party ≠ .selector) :
    let asking := m.performAll c (.begin :: before ++ .count :: after)
    ∃ limit, asking.selector = .counted (max m.permits 1) limit ∧
      max m.permits 1 + asking.inFlight.length ≤ limit := by
  intro asking
  let sized := m.perform c .begin
  have hsized : sized.selector = .sized (max m.permits 1) := by
    simp only [sized, perform, step, begin, hidle, if_true, Option.getD_some]
  let ready := sized.performAll c before
  have hready : Steady sized ready := steady_performAll hbefore
  let counted := ready.perform c .count
  have hcounted : counted = { ready with
      selector := .counted (max m.permits 1) (max m.permits 1 + ready.inFlight.length) } := by
    simp only [counted, perform, step, count, hready.selector, hsized, Option.getD_some]
  have hasking : Steady counted asking := by
    simp only [asking, performAll_append]
    exact steady_performAll hafter
  rw [hcounted] at hasking
  exact ⟨_, hasking.selector, Nat.add_le_add_left hasking.inFlight.length_le _⟩

/-- The peers that are stale at the time `now` and not in flight, in the order in which they are
listed. -/
def due (c : Context) (now : Nat) (m : Machine) : List Peer :=
  (m.store.registry.stale now c.settings.staleAfter).filter fun p => !m.inFlight.contains p.id

theorem mem_due_iff {now : Nat} {p : Peer} : p ∈ m.due c now ↔
    m.store.registry.find? p.id = some p ∧ p.lastUpdated < now - c.settings.staleAfter ∧
      p.id ∉ m.inFlight := by
  rw [due, List.mem_filter, Registry.mem_stale_iff, Bool.not_eq_true', ← Bool.not_eq_true,
    List.contains_iff_mem, and_assoc]

theorem pairwise_due (c : Context) (now : Nat) (m : Machine) :
    (m.due c now).Pairwise Peer.Before :=
  (Registry.pairwise_stale ..).sublist List.filter_sublist

/-- What is chosen among the stale peers of a list that is long enough, if no worker moves between. -/
theorem selector_of_counted {wanted limit : Nat} {between : List Action} (now : Nat)
    (hs : m.selector = .counted wanted limit) (henough : wanted + m.inFlight.length ≤ limit)
    (hup : .listStale ∉ m.store.down) (hbetween : ∀ a ∈ between, a.party = .outside) :
    (m.performAll c (.list now :: between ++ [.choose])).selector =
      .offering ((m.due c now).take wanted) := by
  let stale := m.store.registry.listStale now c.settings.staleAfter limit
  let listed := m.perform c (.list now)
  have hlisted : listed = { m with
      store := { m.store with log := .listStale :: m.store.log }
      selector := .listed wanted stale } := by
    simp only [listed, perform, step, list, hs, PeerStore.listStale, PeerStore.answer_of_up hup,
      Option.getD_some, stale]
  let ready := listed.performAll c between
  have hready : ready.selector = .listed wanted stale := by
    have steady : Steady listed ready := steady_performAll fun a ha => by
      rw [hbetween a ha]
      decide
    rw [steady.selector, hlisted]
  have flying : ready.inFlight = m.inFlight := by
    rw [show ready.inFlight = listed.inFlight from inFlight_performAll hbetween, hlisted]
  have last : m.performAll c (.list now :: between ++ [.choose]) = ready.perform c .choose := by
    rw [performAll_append]
    rfl
  simp only [last, perform, step, choose, hready, Option.getD_some, chosen, flying]
  exact congrArg Selector.offering (Registry.take_listStale henough)

end Machine

open Machine

/-- A selection chooses the first of the peers that are due, which are the stored peers that are stale
and not in flight: as many as there are free permits, but at least one, or all of them if there are
fewer. Those in flight are never chosen, and whoever is passed over comes after all that are chosen.
This is so whatever the others do while the selector counts, if no worker moves between the list and
the choice. -/
theorem chooses_first (c : Context) (m : Machine) (before after between : List Action) (now : Nat)
    (hidle : m.selector = .idle) (hothers : ∀ a ∈ before ++ after, a.party ≠ .selector)
    (hbetween : ∀ a ∈ between, a.party = .outside)
    (hup : .listStale ∉ (m.performAll c (.begin :: before ++ .count :: after)).store.down) :
    let wanted := max m.permits 1
    let asking := m.performAll c (.begin :: before ++ .count :: after)
    ∃ due : List Peer, due.Pairwise Peer.Before ∧
      (∀ p, p ∈ due ↔ asking.store.registry.find? p.id = some p ∧
        p.lastUpdated < now - c.settings.staleAfter ∧ p.id ∉ asking.inFlight) ∧
      (asking.performAll c (.list now :: between ++ [.choose])).selector =
        .offering (due.take wanted) ∧
      (due.take wanted).length = min wanted due.length ∧
      ∀ p ∈ due, p ∉ due.take wanted → ∀ q ∈ due.take wanted, q.Before p := by
  intro wanted asking
  obtain ⟨hbefore, hafter⟩ := List.forall_mem_append.1 hothers
  obtain ⟨limit, hs, henough⟩ := exists_asking (c := c) hidle hbefore hafter
  refine ⟨asking.due c now, pairwise_due .., fun _ => mem_due_iff,
    selector_of_counted now hs henough hup hbetween, List.length_take, ?_⟩
  intro p hp hpassed q hq
  have ordered := pairwise_due c now asking
  rw [← List.take_append_drop wanted (asking.due c now)] at hp ordered
  exact (List.pairwise_append.1 ordered).2.2 q hq p ((List.mem_append.1 hp).resolve_left hpassed)

namespace Solo

/-- Another peer, as old as the first. -/
def other : Peer := { peer with id := ⟨"other"⟩ }

/-- A keeper of both without free permits. The first is in flight, and so is one that has been removed,
whose worker is about to take it out of flight. -/
def crowded : Machine :=
  { start with
    store := .ofRegistry (.ofList [peer, other])
    inFlight := [⟨"removed"⟩, peer.id]
    permits := 0
    workers := [.settled ⟨"removed"⟩] }

end Solo

/-- While the worker goes on, the peer that is not in flight is chosen. -/
theorem chooses_first_crowded :
    Solo.crowded.selector = .idle ∧
      (∀ a ∈ [Action.leave 0] ++ [.release 0], a.party ≠ .selector) ∧
      (∀ a ∈ [Action.shutDown], a.party = .outside) ∧
      .listStale ∉ (Solo.crowded.performAll Solo.context
        [.begin, .leave 0, .count, .release 0]).store.down ∧
      ∃ due : List Peer, (Solo.crowded.performAll Solo.context
          [.begin, .leave 0, .count, .release 0, .list 100, .shutDown, .choose]).selector =
          .offering (due.take 1) ∧ Solo.other ∈ due ∧ Solo.peer ∉ due := by
  obtain ⟨due, -, hdue, hchosen, -⟩ := chooses_first Solo.context Solo.crowded [.leave 0]
    [.release 0] [.shutDown] 100 rfl (by decide) (by decide) (by decide)
  refine ⟨rfl, by decide, by decide, by decide, due, hchosen, (hdue _).2 ?_, fun h => ?_⟩
  · exact ⟨rfl, by decide, by decide⟩
  · exact absurd ((hdue _).1 h).2.2 (by decide)

end PeerCensus.Keeper
