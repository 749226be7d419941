import Mathlib.Data.List.Induction
import PeerCensus.Proofs.Discovery.Course
import PeerCensus.Proofs.Discovery.Intake

/-!
# The intake after it has been told to stop

An intake that has been told to stop can stop between any two nodes, but nothing makes it: while
nodes are ready it may as well take the next one. So the peers that it still creates are those of the
admitted nodes that are ready then, or that become ready before it has stopped, all of them or some.

A peer counts as begun from the moment its node is taken, since nothing else is waited for before the
store is called.

Results:
* `Intake.begun_of_after?`: peers are begun for nodes that were ready or came, each once.
* `Intake.work_of_after?`: a bound on the steps of the intake.
* `Intake.exists_after?_stopped`: the intake can stop without another node, whenever it has been told.
* `Intake.exists_after?_all`: the intake can take all nodes, although it has been told to stop.
* `Intake.stops_at_once_iff`: when it begins no other peer.
* `Newcomer.stored_after_shutDown`: a peer that is stored after the intake has been told to stop.
-/

namespace PeerCensus

/-- Whether a node becomes a peer. -/
def AllowedForks.admits (a : AllowedForks) (r : NodeRecord) : Bool :=
  (a.candidate r).isOk

variable {allowed : AllowedForks}

/-- The store is called once for an admitted node, and for no other. -/
theorem count_ingest (allowed : AllowedForks) (r : NodeRecord) (s : PeerStore) :
    (ingest allowed r s).2.count .create = s.count .create + [r].countP allowed.admits := by
  cases hp : allowed.candidate r with
  | error reason => simp [ingest_of_rejected hp, AllowedForks.admits, hp, Except.isOk, Except.toBool]
  | ok p =>
    simp [(ingest_of_candidate hp).1, PeerStore.create, PeerStore.count, PeerStore.log_answer,
      AllowedForks.admits, hp, Except.isOk, Except.toBool]

namespace Intake

variable {s t : Intake} {action : Action} {actions : List Action}

/-! ## What a step can do -/

/-- All that a step can do: when it can be made, and the intake after it. -/
inductive Makes (allowed : AllowedForks) (s : Intake) : Action → Intake → Prop
  | arrive (r : NodeRecord) : s.exhausted = false →
    Makes allowed s (.arrive r) { s with ready := s.ready ++ [r] }
  | exhaust : s.exhausted = false → Makes allowed s .exhaust { s with exhausted := true }
  | shutDown : s.shutdown = false → Makes allowed s .shutDown { s with shutdown := true }
  | take {r : NodeRecord} {ready : List NodeRecord} : s.stopped = false → s.taking = none →
    s.ready = r :: ready → Makes allowed s .take { s with ready, taking := some r }
  | settle {r : NodeRecord} : s.taking = some r →
    Makes allowed s .settle { s with taking := none, store := (ingest allowed r s.store).2 }
  | stop : s.stopped = false → s.taking = none →
    (s.shutdown = true ∨ s.ready = [] ∧ s.exhausted = true) →
    Makes allowed s .stop { s with stopped := true }

theorem makes_of_step (h : s.step allowed action = some t) : Makes allowed s action t := by
  cases action with
  | arrive r =>
    simp only [step, Option.ite_none_left_eq_some] at h
    obtain ⟨hopen, ⟨⟩⟩ := h
    exact .arrive r (Bool.eq_false_iff.2 hopen)
  | exhaust =>
    simp only [step, Option.ite_none_left_eq_some] at h
    obtain ⟨hopen, ⟨⟩⟩ := h
    exact .exhaust (Bool.eq_false_iff.2 hopen)
  | shutDown =>
    simp only [step, Option.ite_none_left_eq_some] at h
    obtain ⟨huntold, ⟨⟩⟩ := h
    exact .shutDown (Bool.eq_false_iff.2 huntold)
  | take =>
    simp only [step] at h
    split at h
    · rename_i hgoing hidle hready
      cases h
      exact .take hgoing hidle hready
    · cases h
  | settle =>
    simp only [step] at h
    split at h
    · rename_i htaking
      cases h
      exact .settle htaking
    · cases h
  | stop =>
    simp only [step, Option.ite_none_right_eq_some] at h
    obtain ⟨⟨hgoing, hidle, hend⟩, ⟨⟩⟩ := h
    exact .stop hgoing hidle hend

/-- What each step preserves, a run preserves. -/
theorem after?_induction {P : List Action → Intake → Prop} (start : P [] s)
    (step : ∀ actions t action u, P actions t → Makes allowed t action u → P (actions ++ [action]) u)
    (h : s.after? allowed actions = some t) : P actions t := by
  induction actions using List.reverseRecOn generalizing t with
  | nil =>
    cases h
    exact start
  | append_singleton actions action ih =>
    rw [after?_append, Option.bind_eq_some_iff] at h
    obtain ⟨u, hu, hlast⟩ := h
    rw [after?_cons, Option.bind_eq_some_iff] at hlast
    obtain ⟨v, hv, ⟨⟩⟩ := hlast
    exact step actions u action _ (ih hu) (makes_of_step hv)

/-! ## Peers that are begun -/

/-- The node that comes in a step of discovery. -/
def Action.node? : Action → Option NodeRecord
  | .arrive r => some r
  | _ => none

/-- The nodes that come in some steps. -/
def arrivals (actions : List Action) : List NodeRecord :=
  actions.filterMap Action.node?

/-- How many peers have been begun: the store has been called for them, or will be as soon as it can
be. -/
def begun (allowed : AllowedForks) (s : Intake) : Nat :=
  s.store.count .create + s.taking.toList.countP allowed.admits

/-- A step begins a peer for an admitted node that was ready, and no other. -/
theorem begun_of_makes (h : Makes allowed s action t) :
    t.begun allowed + t.ready.countP allowed.admits =
      s.begun allowed + (s.ready ++ action.node?.toList).countP allowed.admits := by
  cases h with
  | arrive r => simp [begun, Action.node?]
  | exhaust => simp [begun, Action.node?]
  | shutDown => simp [begun, Action.node?]
  | take hgoing hidle hready =>
    simp only [begun, hidle, hready, Action.node?, Option.toList_some, Option.toList_none,
      List.append_nil, List.countP_cons, List.countP_nil]
    omega
  | settle htaking => simp [begun, htaking, count_ingest, Action.node?]
  | stop => simp [begun, Action.node?]

theorem begun_le_of_makes (h : Makes allowed s action t) : s.begun allowed ≤ t.begun allowed := by
  cases h with
  | arrive r => exact Nat.le_refl _
  | exhaust => exact Nat.le_refl _
  | shutDown => exact Nat.le_refl _
  | take hgoing hidle hready => simp [begun, hidle]
  | settle htaking => simp [begun, htaking, count_ingest]
  | stop => exact Nat.le_refl _

theorem arrivals_append (before after : List Action) :
    arrivals (before ++ after) = arrivals before ++ arrivals after :=
  List.filterMap_append

theorem arrivals_singleton (action : Action) : arrivals [action] = action.node?.toList := by
  cases action <;> rfl

theorem arrivals_map_arrive (later : List NodeRecord) : arrivals (later.map .arrive) = later := by
  rw [arrivals, List.filterMap_map]
  exact List.filterMap_some

theorem arrivals_rounds (n : Nat) : arrivals (rounds n) = [] := by
  induction n with
  | zero => rfl
  | succ n ih => exact ih

/-- Peers are begun for nodes that were ready or came, and each node is used up. -/
theorem begun_of_after? (h : s.after? allowed actions = some t) :
    t.begun allowed + t.ready.countP allowed.admits =
      s.begun allowed + (s.ready ++ arrivals actions).countP allowed.admits := by
  refine after?_induction (P := fun actions t => t.begun allowed + t.ready.countP allowed.admits =
    s.begun allowed + (s.ready ++ arrivals actions).countP allowed.admits) ?_ ?_ h
  · simp [arrivals]
  · intro actions t action u ih hmakes
    rw [begun_of_makes hmakes, arrivals_append, arrivals_singleton]
    simp only [List.countP_append] at ih ⊢
    omega

theorem begun_le_of_after? (h : s.after? allowed actions = some t) :
    s.begun allowed ≤ t.begun allowed :=
  after?_induction (P := fun _ t => s.begun allowed ≤ t.begun allowed) (Nat.le_refl _)
    (fun _ _ _ _ ih hmakes => Nat.le_trans ih (begun_le_of_makes hmakes)) h

/-! ## The end of the intake -/

/-- Whether a step is one of the intake and not of discovery. -/
def Action.isOwn : Action → Bool
  | .take | .settle | .stop => true
  | _ => false

/-- The steps that the intake has still to make: two for each node and the last one. -/
def work (s : Intake) : Nat :=
  2 * s.ready.length + s.taking.toList.length + if s.stopped then 0 else 1

theorem work_of_makes (h : Makes allowed s action t) :
    t.work + [action].countP Action.isOwn = s.work + 2 * action.node?.toList.length := by
  cases h with
  | arrive r => simp [work, Action.node?, Action.isOwn]; omega
  | exhaust => simp [work, Action.node?, Action.isOwn]
  | shutDown => simp [work, Action.node?, Action.isOwn]
  | take hgoing hidle hready => simp [work, hgoing, hidle, hready, Action.node?, Action.isOwn]; omega
  | settle htaking => simp [work, htaking, Action.node?, Action.isOwn]; omega
  | stop hgoing hidle => simp [work, hgoing, hidle, Action.node?, Action.isOwn]

/-- Each step of the intake is one less to make, and each node that comes makes two more. -/
theorem work_of_after? (h : s.after? allowed actions = some t) :
    t.work + actions.countP Action.isOwn = s.work + 2 * (arrivals actions).length := by
  refine after?_induction (P := fun actions t => t.work + actions.countP Action.isOwn =
    s.work + 2 * (arrivals actions).length) ?_ ?_ h
  · simp [arrivals]
  · intro actions t action u ih hmakes
    have one := work_of_makes hmakes
    rw [arrivals_append, arrivals_singleton, List.countP_append, List.length_append]
    omega

theorem shutdown_of_makes (h : Makes allowed s action t) (hs : s.shutdown = true) :
    t.shutdown = true := by
  cases h with
  | shutDown => rfl
  | _ => exact hs

theorem shutdown_of_after? (h : s.after? allowed actions = some t) (hs : s.shutdown = true) :
    t.shutdown = true :=
  after?_induction (P := fun _ t => t.shutdown = true) hs
    (fun _ _ _ _ ih hmakes => shutdown_of_makes hmakes ih) h

/-- A node that is being taken in will have been taken in. -/
theorem exists_after?_idle (allowed : AllowedForks) (s : Intake) :
    ∃ actions store, arrivals actions = [] ∧
      s.after? allowed actions = some { s with taking := none, store } := by
  obtain ⟨ready, exhausted, taking, store, shutdown, stopped⟩ := s
  cases taking with
  | none => exact ⟨[], store, rfl, rfl⟩
  | some r => exact ⟨[.settle], (ingest allowed r store).2, rfl, rfl⟩

/-- An intake that has been told to stop can do so as soon as its node has been taken in. -/
theorem exists_after?_stopped (allowed : AllowedForks) (hs : s.shutdown = true) :
    ∃ actions t, s.after? allowed actions = some t ∧ t.stopped = true ∧ arrivals actions = [] ∧
      t.begun allowed = s.begun allowed := by
  obtain ⟨actions, store, hnone, hidle⟩ := exists_after?_idle allowed s
  have reached : ∃ actions t, s.after? allowed actions = some t ∧ t.stopped = true ∧
      arrivals actions = [] ∧ t.ready = s.ready := by
    cases hstopped : s.stopped with
    | true => exact ⟨actions, _, hidle, hstopped, hnone, rfl⟩
    | false =>
      refine ⟨actions ++ [.stop], { s with taking := none, store, stopped := true }, ?_, rfl, ?_, rfl⟩
      · rw [after?_append, hidle, Option.bind_some, after?_cons]
        simp [step, hstopped, hs, after?]
      · rw [arrivals_append, hnone, arrivals_singleton]
        rfl
  obtain ⟨actions, t, ht, hend, hnone, hready⟩ := reached
  refine ⟨actions, t, ht, hend, hnone, ?_⟩
  have := begun_of_after? ht
  rw [hnone, hready, List.append_nil] at this
  omega

theorem after?_arrive (allowed : AllowedForks) {later : List NodeRecord}
    (hopen : s.exhausted = true → later = []) :
    s.after? allowed (later.map .arrive) = some { s with ready := s.ready ++ later } := by
  induction later generalizing s with
  | nil => simp [after?]
  | cons r later ih =>
    have more : ¬s.exhausted = true := fun h => List.cons_ne_nil r later (hopen h)
    have hstep : s.step allowed (.arrive r) = some { s with ready := s.ready ++ [r] } := if_neg more
    rw [List.map_cons, after?_cons, hstep, Option.bind_some,
      ih (s := { s with ready := s.ready ++ [r] }) fun h => absurd h more]
    simp

/-- Although it has been told to stop, the intake can take all nodes that are ready or come. -/
theorem exists_after?_all (allowed : AllowedForks) {later : List NodeRecord}
    (hgoing : s.stopped = false) (hopen : s.exhausted = true → later = []) :
    ∃ actions t, s.after? allowed actions = some t ∧ arrivals actions = later ∧ t.ready = [] ∧
      t.stopped = false := by
  obtain ⟨actions, store, hnone, hidle⟩ := exists_after?_idle allowed s
  refine ⟨actions ++ later.map .arrive ++ rounds (s.ready ++ later).length,
    { s with ready := [], taking := none, store := runAll allowed (s.ready ++ later) store }, ?_, ?_,
    rfl, hgoing⟩
  · rw [after?_append, after?_append, hidle, Option.bind_some,
      after?_arrive (s := { s with taking := none, store }) allowed hopen, Option.bind_some]
    exact after?_rounds allowed (List.append_nil _).symm rfl hgoing
  · rw [arrivals_append, arrivals_append, hnone, arrivals_map_arrive, arrivals_rounds]
    simp

/-! ## When it stops at once -/

/-- Once the intake has been told to stop, it begins no other peer exactly if no admitted node is
ready or becomes ready before it has stopped. Otherwise it may begin a peer for each of them, and
still go on. It can stop at any time without another node, and it takes no more steps than there are
nodes for. -/
theorem stops_at_once_iff (allowed : AllowedForks) {s : Intake} {later : List NodeRecord}
    (hs : s.shutdown = true) (hgoing : s.stopped = false) (hopen : s.exhausted = true → later = []) :
    ((∀ actions t, s.after? allowed actions = some t → arrivals actions <+: later →
        t.begun allowed = s.begun allowed) ↔
      ∀ r ∈ s.ready ++ later, allowed.admits r = false) ∧
    (∃ actions t, s.after? allowed actions = some t ∧ arrivals actions = later ∧
      t.stopped = false ∧
      t.begun allowed = s.begun allowed + (s.ready ++ later).countP allowed.admits) ∧
    ∀ actions t, s.after? allowed actions = some t →
      actions.countP Action.isOwn ≤ s.work + 2 * (arrivals actions).length ∧
      ∃ rest u, t.after? allowed rest = some u ∧ u.stopped = true ∧ arrivals rest = [] ∧
        u.begun allowed = t.begun allowed := by
  obtain ⟨all, last, hall, hlater, hready, hlast⟩ := exists_after?_all allowed hgoing hopen
  have most := begun_of_after? hall
  rw [hready, hlater, List.countP_nil, Nat.add_zero] at most
  refine ⟨⟨fun h => ?_, fun h actions t ht hprefix => ?_⟩,
    ⟨all, last, hall, hlater, hlast, most⟩, fun actions t ht => ⟨?_, ?_⟩⟩
  · have same := h all last hall (hlater ▸ List.prefix_refl _)
    have none : (s.ready ++ later).countP allowed.admits = 0 := by omega
    exact fun r hr => Bool.eq_false_iff.2 (List.countP_eq_zero.1 none r hr)
  · have few : (s.ready ++ arrivals actions).countP allowed.admits = 0 := by
      rw [List.countP_eq_zero]
      intro r hr
      rw [h r (((List.prefix_append_right_inj _).2 hprefix).subset hr)]
      exact Bool.false_ne_true
    have law := begun_of_after? ht
    have mono := begun_le_of_after? ht
    omega
  · have law := work_of_after? ht
    omega
  · exact exists_after?_stopped allowed (shutdown_of_after? ht hs)

end Intake

namespace Newcomer

open Intake (arrivals)

/-- The intake of the node, told to stop before it has taken it. -/
def told : Intake := { Intake.new [record] store with shutdown := true }

/-- Another fork, which the node does not follow. -/
def otherForks : AllowedForks := ⟨[⟨⟨[0, 0, 0, 0], rfl⟩⟩]⟩

/-- The intake keeps to its store if the node is not admitted, and need not do so if it is. -/
theorem stops_at_once_told :
    (∀ actions t, told.after? otherForks actions = some t → arrivals actions <+: [] →
      t.begun otherForks = told.begun otherForks) ∧
    ¬∀ actions t, told.after? forks actions = some t → arrivals actions <+: [] →
      t.begun forks = told.begun forks := by
  have stays := @Intake.stops_at_once_iff otherForks told [] rfl rfl fun _ => rfl
  have goes := @Intake.stops_at_once_iff forks told [] rfl rfl fun _ => rfl
  refine ⟨stays.1.2 ?_, fun h => ?_⟩
  · simp only [List.append_nil, told, Intake.new, List.mem_singleton, forall_eq]
    rfl
  · have admitted : forks.admits record = true := rfl
    have rejected := goes.1.1 h record (by simp [told, Intake.new])
    rw [admitted] at rejected
    cases rejected

/-- What the intake leaves if it takes the node all the same. -/
def late : Intake :=
  { Intake.new [] (ingest forks record store).2 with shutdown := true, stopped := true }

/-- The intake has been told to stop, takes the node, and stores its peer. -/
theorem stored_after_shutDown :
    (Intake.new [record] store).after? forks [.shutDown] = some told ∧
      told.after? forks [.take, .settle, .stop] = some late ∧
      told.begun forks = 0 ∧ late.begun forks = 1 ∧ late.stopped = true ∧
      late.store.registry.find? record.peerId = some peer :=
  ⟨rfl, rfl, rfl, rfl, rfl, find?_record⟩

end Newcomer

end PeerCensus
