import PeerCensus.Crawl.Timeline

/-!
# Progress

A run goes on until it is told to stop. Before that time every turn does something that can be done
only so often, or makes the party wait; and when all parties wait, time passes. What goes on around a
run neither brings the stop nearer nor puts it off.

Results:
* `nearer_take`: every turn brings the stop nearer.
* `nearer_advance`: the passing of time brings the stop nearer.
* `runToStop_eq`: what a run does around which nothing goes on.
-/

namespace PeerCensus.Crawl.Timeline

open Keeper

/-- How many milliseconds are left until `stop` when something is due, if anything is. -/
def untilStop (stop : Nat) (due : Option Nat) : Nat :=
  (due.map (stop - ·)).getD 0

/-- How many nodes can still be discovered, ticks come and snapshots be taken before `stop`. -/
def outstanding (stop : Nat) (t : Timeline) : Nat :=
  t.feed.length + untilStop stop t.nextTick + untilStop stop t.nextSnapshot

/-- How often a peer can still move on towards a worker: onto the queue, and off it. -/
def load (m : Machine) : Nat :=
  2 * m.waiting.length + m.queue.length

/-- How far a run is from the time `stop`, the weightiest measure first. -/
def distance (stop : Nat) (t : Timeline) : Nat × Nat × Nat × Nat × Nat :=
  (outstanding stop t, load t.machine, t.running.length, stop - t.time, t.ready.length)

/-- Whether the run `t` is nearer to the time `stop` than `t'`. -/
def Nearer (stop : Nat) (t t' : Timeline) : Prop :=
  Prod.Lex (· < ·) (Prod.Lex (· < ·) (Prod.Lex (· < ·) (Prod.Lex (· < ·) (· < ·))))
    (distance stop t) (distance stop t')

variable {c : Course} {stop : Nat} {t t' : Timeline}

theorem nearer_of_outstanding (h : outstanding stop t < outstanding stop t') : Nearer stop t t' :=
  .left _ _ h

theorem nearer_of_load (h₁ : outstanding stop t = outstanding stop t')
    (h : load t.machine < load t'.machine) : Nearer stop t t' := by
  unfold Nearer distance
  rw [h₁]
  exact .right _ (.left _ _ h)

theorem nearer_of_running (h₁ : outstanding stop t = outstanding stop t')
    (h₂ : load t.machine = load t'.machine) (h : t.running.length < t'.running.length) :
    Nearer stop t t' := by
  unfold Nearer distance
  rw [h₁, h₂]
  exact .right _ (.right _ (.left _ _ h))

theorem nearer_of_ready (h₁ : outstanding stop t = outstanding stop t')
    (h₂ : load t.machine = load t'.machine) (h₃ : t.running = t'.running) (h₄ : t.time = t'.time)
    (h : t.ready.length < t'.ready.length) : Nearer stop t t' := by
  unfold Nearer distance
  rw [h₁, h₂, h₃, h₄]
  exact .right _ (.right _ (.right _ (.right _ h)))

theorem load_of_supply {m m' : Machine} (h : m.supply = m'.supply) : load m = load m' := by
  obtain ⟨hs, hq⟩ := Prod.mk.inj h
  simp only [load, Machine.waiting, hs, hq]

theorem untilStop_tickAfter {interval due now : Nat} (h : due < stop) :
    untilStop stop (some (tickAfter interval due now)) < untilStop stop (some due) := by
  have := lt_tickAfter interval due now
  simp only [untilStop, Option.map_some, Option.getD_some]
  omega

/-! ## Turns -/

/-- The timeline with its first turn begun. -/
def begun (t : Timeline) (rest : List Turn) : Timeline := { t with ready := rest }

/-- A turn that leaves all but the alarms as they are brings the stop nearer. -/
theorem nearer_begun {turn : Turn} {rest : List Turn} (h : t.ready = turn :: rest)
    (alarms : List (Nat × Turn)) : Nearer stop { t.begun rest with alarms } t :=
  nearer_of_ready rfl rfl rfl rfl (by simp [begun, h])

theorem nearer_deliver {rest : List Turn} (h : t.ready = .deliver :: rest) :
    Nearer stop (t.begun rest).deliver t := by
  unfold deliver
  split
  · exact nearer_begun h _
  · rename_i due r feed hf
    have hf : t.feed = (due, r) :: feed := hf
    split
    · refine nearer_of_outstanding ?_
      simp only [outstanding, resume, wake, begun, hf, List.length_cons]
      omega
    · exact nearer_begun h _

theorem nearer_intake {r : NodeRecord} {rest : List Turn} (h : t.ready = .intake r :: rest) :
    Nearer stop ((t.begun rest).intake c r) t := by
  unfold intake
  split
  · exact nearer_of_ready rfl rfl rfl rfl (by simp [begun, h])
  · exact nearer_begun h _

theorem nearer_record {rest : List Turn} (h : t.ready = .record :: rest) (ht : t.time < stop) :
    Nearer stop ((t.begun rest).record c) t := by
  unfold record
  split
  · exact nearer_begun h _
  · rename_i due hd
    have hd : t.nextSnapshot = some due := hd
    split
    · rename_i hle
      refine nearer_of_outstanding ?_
      simp only [outstanding, resume, snapshot, begun, hd]
      have := @untilStop_tickAfter stop c.snapshotInterval due t.time (Nat.lt_of_le_of_lt hle ht)
      omega
    · exact nearer_begun h _

theorem nearer_select {rest : List Turn} (h : t.ready = .select :: rest) (ht : t.time < stop) :
    Nearer stop ((t.begun rest).select c) t := by
  unfold select
  split
  · split
    · rename_i m hm
      obtain ⟨p, hw, hq⟩ := Machine.waiting_handOver? hm
      have hw : t.machine.waiting = p :: m.waiting := hw
      have hq : m.queue = t.machine.queue ++ [p] := hq
      refine nearer_of_load rfl ?_
      simp only [load, resume, wake, hw, hq, List.length_cons, List.length_append]
      simp only [List.length_nil]
      omega
    · exact nearer_begun h _
  · rename_i hw
    have hw : t.machine.waiting = [] := hw
    obtain ⟨hw', hq'⟩ := @Machine.waiting_queue_perform_finish c.keeper _ hw
    have same : load (t.machine.perform c.keeper .finish) = load t.machine := by
      simp only [load, hw, hw', hq']
    dsimp only
    split
    · exact nearer_of_ready rfl same rfl rfl (by simp [begun, h])
    · rename_i due hd
      have hd : t.nextTick = some due := hd
      split
      · rename_i hle
        refine nearer_of_outstanding ?_
        simp only [outstanding, resume, tick, begun, hd]
        have := @untilStop_tickAfter stop (c.keeper.settings.selectInterval * 1000) due t.time
          (Nat.lt_of_le_of_lt hle ht)
        omega
      · exact nearer_of_ready rfl same rfl rfl (by simp [setAlarm, begun, h])

theorem nearer_receive {rest : List Turn} (h : t.ready = .receive :: rest) :
    Nearer stop ((t.begun rest).receive c) t := by
  unfold receive
  split
  · rename_i p queue worker hq hi
    have hi : t.machine.workers.idxOf? .idle = some worker := hi
    have hq : t.machine.queue = p :: queue := hq
    have supply := @Machine.supply_perform_receive c.keeper _ _ _ _ hi hq
    obtain ⟨hs, hq'⟩ := Prod.mk.inj supply
    have less : load (t.machine.perform c.keeper (.receive worker)) < load t.machine := by
      simp only [load, Machine.waiting, hs, hq, hq', List.length_cons]
      omega
    dsimp only
    split
    · exact nearer_of_load rfl less
    · exact nearer_of_load rfl less
  · exact nearer_begun h _

theorem nearer_proceed {worker : Nat} {rest : List Turn} (h : t.ready = .proceed worker :: rest) :
    Nearer stop ((t.begun rest).proceed c worker) t := by
  unfold proceed
  split
  · exact nearer_begun h _
  · rename_i r hr
    split
    · exact nearer_begun h _
    · have same := load_of_supply
        (Machine.supply_conclude c.keeper worker c.now r.verdict t.machine)
      have fewer : (t.running.eraseP (·.worker == worker)).length < t.running.length := by
        have mem : r ∈ t.running := List.mem_of_find?_eq_some hr
        have hw : (r.worker == worker) = true := by simpa using List.find?_some hr
        rw [List.length_eraseP_of_mem mem hw]
        have := List.length_pos_of_mem mem
        omega
      dsimp only
      split
      · exact nearer_of_running rfl same fewer
      · exact nearer_of_running rfl same fewer

theorem nearer_take {turn : Turn} {rest : List Turn} (h : t.ready = turn :: rest)
    (ht : t.time < stop) : Nearer stop ((t.begun rest).take c turn) t := by
  cases turn with
  | deliver => exact nearer_deliver h
  | intake r => exact nearer_intake h
  | select => exact nearer_select h ht
  | record => exact nearer_record h ht
  | receive => exact nearer_receive h
  | proceed worker => exact nearer_proceed h

theorem nearer_advance {time : Nat} (h : t.time < time) (ht : time < stop) :
    Nearer stop (t.advance time) t :=
  .right _ (.right _ (.right _ (.left _ _ (by simp only [advance]; omega))))

/-! ## The loop -/

/-- The first turn of a timeline amid its surroundings, with `rest` ready behind it. -/
def turnAmid (w : Surroundings) (c : Course) (turn : Turn) (rest : List Turn) (t : Timeline) :
    Timeline :=
  ((t.withStores (w.change t.time t.stores)).begun rest).take
    { c with now := w.clock t.time } turn

theorem nearer_turnAmid {w : Surroundings} {turn : Turn} {rest : List Turn}
    (h : t.ready = turn :: rest) (ht : t.time < c.stop) :
    Nearer c.stop (t.turnAmid w c turn rest) t :=
  @nearer_take { c with now := w.clock t.time } c.stop (t.withStores (w.change t.time t.stores))
    turn rest h ht

/-- The timeline at the moment when a run amid surroundings is told to stop. Time passes when nobody is
awake; what is due at the stop does not happen any more. -/
def runAmid (w : Surroundings) (c : Course) (t : Timeline) : Timeline :=
  if _before : t.time < c.stop then
    match _turn : t.ready with
    | turn :: rest => runAmid w c (t.turnAmid w c turn rest)
    | [] =>
      match t.nextAlarm with
      | none => t
      | some time =>
        if _later : t.time < time ∧ time < c.stop then runAmid w c (t.advance time) else t
  else t
termination_by distance c.stop t
decreasing_by
  · exact nearer_turnAmid _turn _before
  · exact nearer_advance _later.1 _later.2

section Loop

variable {w : Surroundings}

theorem runAmid_of_le (h : c.stop ≤ t.time) : t.runAmid w c = t := by
  rw [runAmid, dif_neg (Nat.not_lt.2 h)]

theorem runAmid_of_ready {turn : Turn} {rest : List Turn} (ht : t.time < c.stop)
    (h : t.ready = turn :: rest) : t.runAmid w c = (t.turnAmid w c turn rest).runAmid w c := by
  rw [runAmid, dif_pos ht]
  split
  · rename_i hready
    rw [h] at hready
    cases hready
    rfl
  · rename_i hready
    rw [h] at hready
    cases hready

theorem runAmid_of_asleep (ht : t.time < c.stop) (h : t.ready = []) : t.runAmid w c =
    match t.nextAlarm with
    | none => t
    | some time =>
      if t.time < time ∧ time < c.stop then (t.advance time).runAmid w c else t := by
  rw [runAmid, dif_pos ht]
  split
  · rename_i hready
    rw [h] at hready
    cases hready
  · cases t.nextAlarm with
    | none => rfl
    | some time => rfl

end Loop

/-- The timeline at the moment when a run is told to stop around which nothing goes on. -/
def runToStop (c : Course) (t : Timeline) : Timeline :=
  t.runAmid (.still c.now) c

/-- Such a run is one turn after another, and the passing of time between them. -/
theorem runToStop_eq (c : Course) (t : Timeline) :
    t.runToStop c =
      if t.time < c.stop then
        match t.ready with
        | turn :: rest => ((t.begun rest).take c turn).runToStop c
        | [] =>
          match t.nextAlarm with
          | none => t
          | some time =>
            if t.time < time ∧ time < c.stop then (t.advance time).runToStop c else t
      else t := by
  by_cases ht : t.time < c.stop
  · rw [if_pos ht]
    cases hready : t.ready with
    | cons turn rest => exact runAmid_of_ready ht hready
    | nil => exact runAmid_of_asleep ht hready
  · rw [if_neg ht]
    exact runAmid_of_le (Nat.not_lt.1 ht)

end PeerCensus.Crawl.Timeline
