import Mathlib.Data.List.Range
import Mathlib.Data.List.Sort
import Mathlib.Data.Nat.Find
import PeerCensus.Crawl.Run
import PeerCensus.Proofs.Keeper.Run

/-!
# The schedule of snapshots

A run of which only the snapshots are looked at, while around it the clock goes on, peers come and
go, and the stores refuse calls and answer again. With nothing but snapshots to take, a run sleeps
until the next tick, takes a snapshot if both stores answer, and sleeps again, so that no tick comes
late and none is missed.

Results:
* `Timeline.Alone.tick`: what one tick adds to the history.
* `Timeline.Alone.snapshots_runAmid`: what a run adds to it.
* `Timeline.scheduled_exact`: the history of a scheduler.
-/

namespace PeerCensus.Crawl

open Keeper

/-! ## Surroundings -/

/-- How the stores are found at one time. -/
structure Scene where
  /-- What the wall clock shows. -/
  now : Nat
  peers : Registry
  /-- The calls that the peer store refuses. -/
  refused : List StoreCall
  /-- Whether the history refuses all calls. -/
  historyDown : Bool

namespace Scene

/-- The stores as they are found. The history keeps its snapshots. -/
def on (scene : Scene) (stores : Stores) : Stores where
  peers := { stores.peers with registry := scene.peers, down := scene.refused }
  history := { stores.history with down := scene.historyDown }

/-- The snapshot of a scene: how many peers are connectable, and how many of these are synced. There
is none if one of the stores does not answer. -/
def snapshot? (scene : Scene) : Option Snapshot :=
  if .viewAll ∈ scene.refused ∨ scene.historyDown = true then none
  else some {
    time := scene.now
    total := scene.peers.peers.countP Peer.connectable
    synced := scene.peers.peers.countP fun p => p.connectable && Statistics.isSynced p }

theorem synced_le_total {scene : Scene} {s : Snapshot} (h : scene.snapshot? = some s) :
    s.synced ≤ s.total := by
  unfold snapshot? at h
  split at h
  · cases h
  · cases h
    apply List.countP_mono_left
    intro p _ hp
    exact (Bool.and_eq_true_iff.1 hp).1

end Scene

/-- Surroundings that show one scene at each time. -/
def Surroundings.ofScript (script : Nat → Scene) : Surroundings where
  clock time := (script time).now
  change time := (script time).on

theorem bySync_eq (peers : List Peer) :
    (Statistics.bySync peers).total = peers.countP Peer.connectable ∧
      (Statistics.bySync peers).synced =
        peers.countP fun p => p.connectable && Statistics.isSynced p := by
  unfold Statistics.bySync Statistics.connectable
  constructor
  · rw [List.countP_eq_length_filter]
  · simp only [List.countP_filter, Bool.and_comm]

/-- What a snapshot adds to the history of a scene. -/
theorem snapshots_takeSnapshot (scene : Scene) (stores : Stores) :
    (takeSnapshot scene.now (scene.on stores).peers
      (scene.on stores).history).2.2.history.snapshots =
        stores.history.history.snapshots ++ scene.snapshot?.toList := by
  unfold takeSnapshot PeerStore.viewAll Scene.snapshot?
  obtain ⟨htotal, hsynced⟩ := bySync_eq scene.peers.peers
  by_cases hpeers : StoreCall.viewAll ∈ scene.refused
  · simp [Scene.on, PeerStore.answer_of_down, hpeers]
  · rw [PeerStore.answer_of_up hpeers]
    cases hdown : scene.historyDown with
    | true => simp [Scene.on, HistoryStore.add, hpeers, hdown]
    | false =>
      simp [Scene.on, HistoryStore.add, History.add, hpeers, hdown, htotal, hsynced]

namespace Timeline

variable {w : Surroundings} {c : Course} {t : Timeline} {due : Nat}

/-! ## Nothing but snapshots -/

/-- At `time` nothing goes on but that the turns `ready` are taken, with the next snapshot due at
`due` and `past` in the history. -/
structure Alone (time due : Nat) (past : List Snapshot) (ready : List Turn) (t : Timeline) :
    Prop where
  time : t.time = time
  nextSnapshot : t.nextSnapshot = some due
  past : t.history.history.snapshots = past
  ready : t.ready = ready
  alarms : t.alarms = []
  feed : t.feed = []
  nextTick : t.nextTick = none
  waiting : t.machine.waiting = []

variable {script : Nat → Scene} {time : Nat} {past : List Snapshot} {ready rest : List Turn}

/-- The timeline in the scene of its time, with `rest` ready. -/
def staged (script : Nat → Scene) (rest : List Turn) (t : Timeline) : Timeline :=
  (t.withStores ((script t.time).on t.stores)).begun rest

theorem turnAmid_ofScript (turn : Turn) (rest : List Turn) :
    t.turnAmid (.ofScript script) c turn rest =
      (t.staged script rest).take { c with now := (script t.time).now } turn := rfl

theorem Alone.staged (h : Alone time due past ready t) (script : Nat → Scene) (rest : List Turn) :
    Alone time due past rest (t.staged script rest) :=
  ⟨h.time, h.nextSnapshot, h.past, rfl, h.alarms, h.feed, h.nextTick, h.waiting⟩

theorem Alone.deliver (h : Alone time due past ready t) (script : Nat → Scene) (c : Course)
    (rest : List Turn) :
    Alone time due past rest (t.turnAmid (.ofScript script) c .deliver rest) := by
  have hstaged := h.staged script rest
  have same : t.turnAmid (.ofScript script) c .deliver rest = t.staged script rest := by
    rw [turnAmid_ofScript]
    unfold take Timeline.deliver
    rw [hstaged.feed]
  rw [same]
  exact hstaged

theorem Alone.select (h : Alone time due past ready t) (script : Nat → Scene) (c : Course)
    (rest : List Turn) :
    Alone time due past rest (t.turnAmid (.ofScript script) c .select rest) := by
  have hstaged := h.staged script rest
  have same : t.turnAmid (.ofScript script) c .select rest =
      { t.staged script rest with
        machine := (t.staged script rest).machine.perform c.keeper .finish } := by
    rw [turnAmid_ofScript]
    unfold take Timeline.select
    simp only [hstaged.waiting, hstaged.nextTick]
  rw [same]
  exact ⟨h.time, h.nextSnapshot, h.past, rfl, h.alarms, h.feed, h.nextTick,
    (Machine.waiting_queue_perform_finish hstaged.waiting).1⟩

/-- Before the snapshot is due, an alarm is set for it. A run then sleeps until it is due, or until
it is told to stop if that is not later. -/
theorem Alone.runAmid_early (h : Alone time due past [.record] t) (script : Nat → Scene)
    (ht : time < c.stop) (hlt : time < due) : t.runAmid (.ofScript script) c =
      if due < c.stop then
        (((t.staged script []).setAlarm due .record).advance due).runAmid (.ofScript script) c
      else (t.staged script []).setAlarm due .record := by
  have hstaged := h.staged script []
  have hrecord : t.turnAmid (.ofScript script) c .record [] =
      (t.staged script []).setAlarm due .record := by
    rw [turnAmid_ofScript]
    unfold take record
    simp only [hstaged.nextSnapshot, hstaged.time, if_neg (Nat.not_le.2 hlt)]
  have hnext : ((t.staged script []).setAlarm due .record).nextAlarm = some due := by
    simp [nextAlarm, setAlarm, hstaged.alarms]
  have htime : ((t.staged script []).setAlarm due .record).time = time := h.time
  rw [runAmid_of_ready (by rw [h.time]; exact ht) h.ready, hrecord,
    runAmid_of_asleep (by rw [htime]; exact ht) rfl, hnext]
  simp only [htime, hlt, true_and]

theorem Alone.advance (h : Alone time due past [] t) :
    Alone due due past [.record] ((t.setAlarm due .record).advance due) := by
  refine ⟨rfl, h.nextSnapshot, h.past, ?_, ?_, h.feed, h.nextTick, h.waiting⟩
  · simp [Timeline.advance, setAlarm, h.ready, h.alarms]
  · simp [Timeline.advance, setAlarm, h.alarms]

/-- A snapshot is taken when it is due, and the next one is due an interval later. -/
theorem Alone.tick (h : Alone due due past ready t) (hinterval : 0 < c.snapshotInterval) :
    Alone due (due + c.snapshotInterval) (past ++ (script due).snapshot?.toList) [.record]
      (t.turnAmid (.ofScript script) c .record []) := by
  have hstaged := h.staged script []
  have same : t.turnAmid (.ofScript script) c .record [] =
      ((t.staged script []).snapshot { c with now := (script t.time).now } due).resume .record := by
    rw [turnAmid_ofScript]
    unfold take record
    simp only [hstaged.nextSnapshot, hstaged.time, Nat.le_refl, if_true]
  rw [same]
  refine ⟨h.time, ?_, ?_, ?_, h.alarms, h.feed, h.nextTick, h.waiting⟩
  · have hnext : tickAfter c.snapshotInterval due t.time = due + c.snapshotInterval := by
      rw [h.time]
      unfold tickAfter
      rw [if_neg (by omega), Nat.max_eq_left hinterval]
    exact congrArg some hnext
  · rw [← h.past, ← h.time]
    exact snapshots_takeSnapshot (script t.time) t.stores
  · exact congrArg (Turn.record :: ·) hstaged.ready

/-- What a run adds to the history: a snapshot for each time at which one is due and that comes
before the stop, if both stores answer at that time. -/
theorem Alone.snapshots_runAmid (hinterval : 0 < c.snapshotInterval) (n : Nat)
    (h : Alone time due past [.record] t) (ht : time < c.stop) (hlt : time < due)
    (hbefore : ∀ k < n, due + k * c.snapshotInterval < c.stop)
    (hafter : c.stop ≤ due + n * c.snapshotInterval) :
    (t.runAmid (.ofScript script) c).history.history.snapshots =
      past ++ (List.range' due n c.snapshotInterval).filterMap fun time =>
        (script time).snapshot? := by
  induction n generalizing t time due past with
  | zero =>
    rw [h.runAmid_early script ht hlt, if_neg (by omega), List.range'_zero, List.filterMap_nil,
      List.append_nil]
    exact h.past
  | succ n ih =>
    have hdue : due < c.stop := by simpa using hbefore 0 (Nat.succ_pos n)
    have hawake := (h.staged script []).advance
    rw [h.runAmid_early script ht hlt, if_pos hdue, runAmid_of_ready hdue hawake.ready,
      ih (hawake.tick hinterval) hdue (by omega) ?_ ?_, List.range'_succ, List.filterMap_cons]
    · cases (script due).snapshot? <;> simp
    · intro k hk
      have := hbefore (k + 1) (by omega)
      rw [Nat.add_mul] at this
      omega
    · rw [Nat.add_mul] at hafter
      omega

end Timeline

/-! ## A scheduler -/

/-- Those who take part when snapshots are taken and nothing else is done. -/
def Parties.scheduler : Parties := ⟨false, true, [], []⟩

namespace Timeline

theorem alone_opened (c : Course) (hinterval : 0 < c.snapshotInterval) (stores : Stores)
    (t : Timeline) : Alone t.time (t.time + c.snapshotInterval) stores.history.history.snapshots
      [.deliver, .select, .record] (t.opened c .scheduler stores) := by
  refine ⟨rfl, ?_, rfl, rfl, rfl, rfl, ?_, rfl⟩
  · simp [opened, Parties.scheduler, hinterval]
  · simp [opened, Parties.scheduler]

theorem history_windUp (c : Course) (t : Timeline) (r : Running) :
    (t.windUp c r).history = t.history := rfl

theorem history_takeAtStop (c : Course) (t : Timeline) (turn : Turn) :
    (t.takeAtStop c turn).history = t.history := by
  unfold takeAtStop intake
  repeat' split
  all_goals rfl

theorem history_stopAll (c : Course) (t : Timeline) : (t.stopAll c).history = t.history := by
  have keeps {α : Type} (f : Timeline → α → Timeline) (hf : ∀ t a, (f t a).history = t.history)
      (l : List α) (t : Timeline) : (l.foldl f t).history = t.history := by
    induction l generalizing t with
    | nil => rfl
    | cons a l ih => exact (ih (f t a)).trans (hf t a)
  unfold stopAll
  dsimp only
  rw [keeps _ (history_windUp c)]
  exact keeps _ (history_takeAtStop c) _ _

/-- The history when a scheduler has stopped that was started in the timeline `t`, with the clock
and the stores as the script has them. -/
def scheduled (script : Nat → Scene) (c : Course) (stores : Stores) (t : Timeline) :
    List Snapshot :=
  let stopping := (t.opened c .scheduler stores).runAmid (.ofScript script) c
  (stopping.stopAll c).history.history.snapshots

theorem scheduled_eq (script : Nat → Scene) (stores : Stores) (t : Timeline)
    (hinterval : 0 < c.snapshotInterval) {n : Nat}
    (hbefore : ∀ k < n, t.time + c.snapshotInterval + k * c.snapshotInterval < c.stop)
    (hafter : c.stop ≤ t.time + c.snapshotInterval + n * c.snapshotInterval) :
    scheduled script c stores t = stores.history.history.snapshots ++
      (List.range' (t.time + c.snapshotInterval) n c.snapshotInterval).filterMap fun time =>
        (script time).snapshot? := by
  have hopened := alone_opened c hinterval stores t
  unfold scheduled
  dsimp only
  rw [history_stopAll]
  by_cases ht : t.time < c.stop
  · have hdeliver := hopened.deliver script c [.select, .record]
    have hselect := hdeliver.select script c [.record]
    rw [runAmid_of_ready (hopened.time ▸ ht) hopened.ready,
      runAmid_of_ready (hdeliver.time ▸ ht) hdeliver.ready]
    exact hselect.snapshots_runAmid hinterval n ht (by omega) hbefore hafter
  · -- Nothing happens in a run that is told to stop before it begins.
    have hn : n = 0 := by
      rcases Nat.eq_zero_or_pos n with hn | hn
      · exact hn
      · have := hbefore 0 hn
        omega
    rw [hn, runAmid_of_le (by rw [hopened.time]; omega), hopened.past, List.range'_zero,
      List.filterMap_nil, List.append_nil]

/-- How many ticks come before the stop. -/
theorem exists_ticks {interval : Nat} (hinterval : 0 < interval) (due stop : Nat) :
    ∃ n, (∀ k < n, due + k * interval < stop) ∧ stop ≤ due + n * interval := by
  have enough : ∃ n, stop ≤ due + n * interval :=
    ⟨stop, Nat.le_add_left_of_le (Nat.le_mul_of_pos_right stop hinterval)⟩
  refine ⟨Nat.find enough, ?_, Nat.find_spec enough⟩
  intro k hk
  exact Nat.not_le.1 (Nat.find_min enough hk)

theorem mem_ticks_iff {interval start stop n time : Nat}
    (hbefore : ∀ k < n, start + interval + k * interval < stop)
    (hafter : stop ≤ start + interval + n * interval) :
    time ∈ List.range' (start + interval) n interval ↔
      ∃ k, 1 ≤ k ∧ time = start + k * interval ∧ time < stop := by
  have shift (k : Nat) : start + (k + 1) * interval = start + interval + interval * k := by
    rw [Nat.add_mul, Nat.mul_comm]
    omega
  rw [List.mem_range']
  constructor
  · rintro ⟨k, hk, rfl⟩
    refine ⟨k + 1, Nat.succ_pos k, (shift k).symm, ?_⟩
    rw [Nat.mul_comm]
    exact hbefore k hk
  · rintro ⟨k, hk, rfl, hstop⟩
    obtain ⟨j, rfl⟩ := Nat.exists_eq_add_of_le' hk
    refine ⟨j, ?_, shift j⟩
    rw [shift, Nat.mul_comm] at hstop
    by_contra hj
    have := Nat.mul_le_mul_right interval (Nat.not_lt.1 hj)
    omega

theorem ticks_le {interval due stop stop' n n' : Nat} (hstop : stop ≤ stop')
    (hbefore : ∀ k < n, due + k * interval < stop) (hafter : stop' ≤ due + n' * interval) :
    n ≤ n' := by
  by_contra hlt
  have := hbefore n' (Nat.not_le.1 hlt)
  omega

/-- A scheduler adds one snapshot to the history for each tick before the stop at which both stores
answer, in the order of the ticks, and changes nothing else of the history: what it is at an earlier
stop, it begins with at a later one. A tick at the very time of the stop is not taken; which of the
two would come first is open. -/
theorem scheduled_exact (script : Nat → Scene) (c : Course) (stores : Stores) (t : Timeline)
    (hinterval : 0 < c.snapshotInterval) :
    ∃ ticks : List Nat, ticks.Pairwise (· < ·) ∧
      (∀ time, time ∈ ticks ↔
        ∃ k, 1 ≤ k ∧ time = t.time + k * c.snapshotInterval ∧ time < c.stop) ∧
      scheduled script c stores t = stores.history.history.snapshots ++
        ticks.filterMap (fun time => (script time).snapshot?) ∧
      (∀ s ∈ ticks.filterMap fun time => (script time).snapshot?, s.synced ≤ s.total) ∧
      ∀ stop ≤ c.stop,
        scheduled script { c with stop } stores t <+: scheduled script c stores t := by
  obtain ⟨n, hbefore, hafter⟩ := exists_ticks hinterval (t.time + c.snapshotInterval) c.stop
  refine ⟨List.range' (t.time + c.snapshotInterval) n c.snapshotInterval,
    List.pairwise_lt_range' _ hinterval, ?_, scheduled_eq script stores t hinterval hbefore hafter,
    ?_, ?_⟩
  · exact fun _ => mem_ticks_iff hbefore hafter
  · intro s hs
    obtain ⟨time, -, hsnapshot⟩ := List.mem_filterMap.1 hs
    exact Scene.synced_le_total hsnapshot
  · intro stop hstop
    obtain ⟨m, hbefore', hafter'⟩ := exists_ticks hinterval (t.time + c.snapshotInterval) stop
    obtain ⟨d, rfl⟩ := Nat.exists_eq_add_of_le (ticks_le hstop hbefore' hafter)
    have hearlier := @scheduled_eq { c with stop } script stores t hinterval _ hbefore' hafter'
    rw [hearlier, scheduled_eq script stores t hinterval hbefore hafter, ← List.range'_append,
      List.filterMap_append]
    exact (List.prefix_append_right_inj _).2 (List.prefix_append _ _)

end Timeline

namespace Hourly

/-- Two peers that have answered, one of which is synced. -/
def pair : Registry :=
  .ofList [{ Solo.peer with connectable := true, sync := some ⟨true, 0⟩ },
    { Solo.peer with id := ⟨"other"⟩, connectable := true }]

/-- The pair is stored in the second hour, at the end of which the peer store does not answer. -/
def script (time : Nat) : Scene where
  now := 1700000000 + time / 1000
  peers := if time ≤ 3600000 then .empty else pair
  refused := if time = 7200000 then [.viewAll] else []
  historyDown := false

/-- Three hours and a half with a snapshot every hour. Nothing is asked of the host. -/
def course : Course where
  keeper := Solo.context
  host _ _ := ⟨.silent, .silent, ⟨.new [] .silent 0, .unlimited⟩, .silent⟩
  requestTimeout := 10000
  allowed := ⟨[]⟩
  snapshotInterval := 3600000
  now := 1700000000
  stop := 12600000

end Hourly

theorem Timeline.scheduled_exact_hourly : 0 < Hourly.course.snapshotInterval ∧
    scheduled Hourly.script Hourly.course (.ofRegistry .empty)
      (.fresh Solo.context.settings (.ofRegistry .empty)) =
        [⟨1700003600, 0, 0⟩, ⟨1700010800, 2, 1⟩] := by
  have hinterval : 0 < Hourly.course.snapshotInterval := by decide
  obtain ⟨ticks, hsorted, hmem, hhistory, -⟩ := scheduled_exact Hourly.script Hourly.course
    (.ofRegistry .empty) (.fresh Solo.context.settings (.ofRegistry .empty)) hinterval
  have hticks : ticks = [3600000, 7200000, 10800000] := by
    apply hsorted.eq_of_mem_iff (by decide)
    intro time
    rw [hmem]
    show (∃ k, 1 ≤ k ∧ time = 0 + k * 3600000 ∧ time < 12600000) ↔ _
    constructor
    · rintro ⟨k, hk, rfl, hstop⟩
      have hfew : k = 1 ∨ k = 2 ∨ k = 3 := by omega
      rcases hfew with rfl | rfl | rfl <;> simp
    · intro htime
      simp only [List.mem_cons, List.not_mem_nil, or_false] at htime
      rcases htime with rfl | rfl | rfl
      · exact ⟨1, by omega⟩
      · exact ⟨2, by omega⟩
      · exact ⟨3, by omega⟩
  refine ⟨hinterval, ?_⟩
  rw [hhistory, hticks]
  decide

end PeerCensus.Crawl
