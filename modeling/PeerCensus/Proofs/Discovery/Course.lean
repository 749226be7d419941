import PeerCensus.Discovery.Intake

/-!
# The course of the intake

The intake of a list of nodes has no choice unless it is told to stop: it takes the nodes in one after
another, and stops when there are no more.

Results:
* `Intake.after?_rounds`: nodes that are ready can be taken in one after another, in their order.
* `Intake.after?_course`, `Intake.isSome_after?_new_iff`: the intake of a list takes one course, and
  stops at its end.
-/

namespace PeerCensus.Intake

variable {allowed : AllowedForks}

theorem runAll_cons (allowed : AllowedForks) (r : NodeRecord) (records : List NodeRecord)
    (s : PeerStore) : runAll allowed (r :: records) s = runAll allowed records (ingest allowed r s).2 :=
  rfl

/-- The steps in which `n` nodes are taken in. -/
def rounds : Nat → List Action
  | 0 => []
  | n + 1 => .take :: .settle :: rounds n

/-- The steps of the intake of `n` nodes. -/
def course (n : Nat) : List Action := rounds n ++ [.stop]

theorem after?_cons (allowed : AllowedForks) (s : Intake) (action : Action) (actions : List Action) :
    s.after? allowed (action :: actions) =
      (s.step allowed action).bind fun t => t.after? allowed actions :=
  List.foldlM_cons

theorem after?_append (allowed : AllowedForks) (s : Intake) (before after : List Action) :
    s.after? allowed (before ++ after) =
      (s.after? allowed before).bind fun t => t.after? allowed after :=
  List.foldlM_append

/-- Nodes that are ready can be taken in, whether the intake has been told to stop or not. -/
theorem after?_rounds (allowed : AllowedForks) {s : Intake} {before after : List NodeRecord}
    (hready : s.ready = before ++ after) (hidle : s.taking = none) (hgoing : s.stopped = false) :
    s.after? allowed (rounds before.length) =
      some { s with ready := after, store := runAll allowed before s.store } := by
  induction before generalizing s with
  | nil =>
    cases s
    cases hready
    rfl
  | cons r before ih =>
    obtain ⟨ready, exhausted, taking, store, shutdown, stopped⟩ := s
    cases hready
    cases hidle
    cases hgoing
    exact ih (s := ⟨before ++ after, exhausted, none, (ingest allowed r store).2, shutdown, false⟩)
      rfl rfl rfl

/-- At the end of the course all nodes have been taken in. -/
theorem after?_course (allowed : AllowedForks) (records : List NodeRecord) (s : PeerStore) :
    (new records s).after? allowed (course records.length) =
      some { new [] (runAll allowed records s) with stopped := true } := by
  rw [course, after?_append,
    after?_rounds allowed (s := new records s) (List.append_nil records).symm rfl rfl]
  rfl

/-- A state that allows of one step only, unless the intake is told to stop. -/
theorem isSome_after?_iff_of_forced {t s : Intake} {next : Action} {rest : List Action}
    (only : ∀ action ≠ .shutDown,
      s.step allowed action = if action = next then some t else none)
    (hrest : ∀ actions, .shutDown ∉ actions →
      ((t.after? allowed actions).isSome ↔ actions <+: rest))
    (actions : List Action) (h : .shutDown ∉ actions) :
    (s.after? allowed actions).isSome ↔ actions <+: next :: rest := by
  cases actions with
  | nil => simp [after?]
  | cons action actions =>
    rw [List.mem_cons, not_or] at h
    rw [after?_cons, only action (Ne.symm h.1), List.cons_prefix_cons, ← hrest actions h.2]
    split <;> simp_all

theorem step_new_nil (allowed : AllowedForks) (s : PeerStore) (action : Action)
    (h : action ≠ .shutDown) :
    (new [] s).step allowed action =
      if action = .stop then some { new [] s with stopped := true } else none := by
  cases action with
  | shutDown => exact absurd rfl h
  | _ => rfl

theorem step_new_cons (allowed : AllowedForks) (r : NodeRecord) (records : List NodeRecord)
    (s : PeerStore) (action : Action) (h : action ≠ .shutDown) :
    (new (r :: records) s).step allowed action =
      if action = .take then some { new records s with taking := some r } else none := by
  cases action with
  | shutDown => exact absurd rfl h
  | _ => rfl

theorem step_taking (allowed : AllowedForks) (r : NodeRecord) (records : List NodeRecord)
    (s : PeerStore) (action : Action) (h : action ≠ .shutDown) :
    { new records s with taking := some r }.step allowed action =
      if action = .settle then some (new records (ingest allowed r s).2) else none := by
  cases action with
  | shutDown => exact absurd rfl h
  | _ => rfl

theorem step_stopped (allowed : AllowedForks) (s : PeerStore) (action : Action)
    (h : action ≠ .shutDown) : { new [] s with stopped := true }.step allowed action = none := by
  cases action with
  | shutDown => exact absurd rfl h
  | _ => rfl

/-- Unless it is told to stop, the intake of a list can only follow its course. -/
theorem isSome_after?_new_iff (records : List NodeRecord) (s : PeerStore) (actions : List Action)
    (h : .shutDown ∉ actions) :
    ((new records s).after? allowed actions).isSome ↔ actions <+: course records.length := by
  induction records generalizing s actions with
  | nil =>
    refine isSome_after?_iff_of_forced (step_new_nil allowed s) (fun actions h => ?_) actions h
    cases actions with
    | nil => simp [after?]
    | cons action actions =>
      rw [List.mem_cons, not_or] at h
      simp [after?_cons, step_stopped allowed s action (Ne.symm h.1)]
  | cons r records ih =>
    exact isSome_after?_iff_of_forced (step_new_cons allowed r records s)
      (isSome_after?_iff_of_forced (step_taking allowed r records s) (ih _)) actions h

end PeerCensus.Intake
