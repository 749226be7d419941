import Mathlib.Data.List.Basic
import PeerCensus.Store.History

/-!
# Asking for a stretch of the history

A query is answered by an excerpt of what has been taken: all entries strictly between its bounds, in
order of time, and those of one time in the order in which they were taken. There is one such
excerpt. So a stretch of time may be cut at any moment within it: the entries before the moment, the
entries of the moment and those after it are all the entries of the stretch.

Results:
* `Excerpt.eq`: there is one excerpt of a log between two times.
* `Excerpt.append`: excerpts before and after a moment make one across it.
* `excerpt_query`: a query is answered by the excerpt.
* `HistoryStore.queries_partition`: so it is whatever was called before, and a query changes nothing.
-/

namespace PeerCensus

/-- Whether `l` is what stands in `log` strictly between two times. -/
structure Excerpt (time : α → Nat) (log : List α) (start stop : Nat) (l : List α) : Prop where
  /-- Nothing else is in it. -/
  within : ∀ a ∈ l, start < time a ∧ time a < stop
  /-- It is in order of time. -/
  sorted : l.Pairwise fun a b => time a ≤ time b
  /-- Of each time in between, all is in it, in the order of the log. -/
  complete : ∀ t, start < t → t < stop → l.filter (time · = t) = log.filter (time · = t)

/-! ## One order -/

section

variable {time : α → Nat} {log l l' : List α} {start mid stop : Nat}

/-- Lists that agree about each time have the same entries. -/
theorem mem_iff_of_filter_time_eq
    (same : ∀ t, l.filter (time · = t) = l'.filter (time · = t)) (a : α) : a ∈ l ↔ a ∈ l' := by
  have := congrArg (a ∈ ·) (same (time a))
  simpa using this

/-- Lists in order of time that agree about each time are the same. -/
theorem eq_of_filter_time_eq (sorted : l.Pairwise fun a b => time a ≤ time b)
    (sorted' : l'.Pairwise fun a b => time a ≤ time b)
    (same : ∀ t, l.filter (time · = t) = l'.filter (time · = t)) : l = l' := by
  induction l generalizing l' with
  | nil =>
    refine (List.eq_nil_iff_forall_not_mem.2 fun a ha => ?_).symm
    exact List.not_mem_nil ((mem_iff_of_filter_time_eq same a).2 ha)
  | cons a l ih =>
    have mem := mem_iff_of_filter_time_eq same
    cases l' with
    | nil => exact absurd ((mem a).1 List.mem_cons_self) List.not_mem_nil
    | cons b l' =>
      obtain ⟨first, others⟩ := List.pairwise_cons.1 sorted
      obtain ⟨first', others'⟩ := List.pairwise_cons.1 sorted'
      -- neither of the two first entries is older than the other
      have hab : time a ≤ time b := by
        rcases List.mem_cons.1 ((mem b).2 List.mem_cons_self) with rfl | hb
        · exact Nat.le_refl _
        · exact first b hb
      have hba : time b ≤ time a := by
        rcases List.mem_cons.1 ((mem a).1 List.mem_cons_self) with rfl | ha
        · exact Nat.le_refl _
        · exact first' a ha
      have heads := same (time a)
      rw [List.filter_cons_of_pos (by simp),
        List.filter_cons_of_pos (by simpa using Nat.le_antisymm hba hab)] at heads
      obtain rfl := (List.cons.inj heads).1
      have rest (t : Nat) : l.filter (time · = t) = l'.filter (time · = t) := by
        have := same t
        rw [List.filter_cons, List.filter_cons] at this
        split at this
        · exact (List.cons.inj this).2
        · exact this
      rw [ih others others' rest]

theorem filter_time_filter_time (log : List α) (mid t : Nat) :
    (log.filter (time · = mid)).filter (time · = t) =
      if t = mid then log.filter (time · = t) else [] := by
  rw [List.filter_filter]
  split
  · rename_i h
    simp [h]
  · rename_i h
    rw [List.filter_eq_nil_iff]
    intro a _ ha
    simp only [Bool.and_eq_true, decide_eq_true_eq] at ha
    exact h (ha.1.symm.trans ha.2)

theorem time_of_mem_filter {a : α} (h : a ∈ log.filter (time · = mid)) : time a = mid :=
  of_decide_eq_true (List.mem_filter.1 h).2

theorem pairwise_filter_time (log : List α) (mid : Nat) :
    (log.filter (time · = mid)).Pairwise fun a b => time a ≤ time b :=
  List.pairwise_of_forall_mem_list fun _ ha _ hb =>
    Nat.le_of_eq ((time_of_mem_filter ha).trans (time_of_mem_filter hb).symm)

/-! ## Excerpts -/

namespace Excerpt

/-- What an excerpt has of a time is what the log has of it, if it lies between the bounds. -/
theorem filter_time (h : Excerpt time log start stop l) (t : Nat) :
    l.filter (time · = t) = if start < t ∧ t < stop then log.filter (time · = t) else [] := by
  split
  · rename_i ht
    exact h.complete t ht.1 ht.2
  · rename_i ht
    rw [List.filter_eq_nil_iff]
    intro a ha hat
    have := h.within a ha
    rw [of_decide_eq_true hat] at this
    exact ht this

/-- There is one excerpt of a log between two times. -/
theorem eq (h : Excerpt time log start stop l) (h' : Excerpt time log start stop l') : l = l' :=
  eq_of_filter_time_eq h.sorted h'.sorted fun t => by rw [h.filter_time, h'.filter_time]

/-- Excerpts before and after a moment, with all that is of the moment, are one excerpt. -/
theorem append {before after : List α} (hbefore : Excerpt time log start mid before)
    (hafter : Excerpt time log mid stop after) (hstart : start < mid) (hstop : mid < stop) :
    Excerpt time log start stop (before ++ log.filter (time · = mid) ++ after) where
  within a ha := by
    rcases List.mem_append.1 ha with ha | ha
    · rcases List.mem_append.1 ha with ha | ha
      · have := hbefore.within a ha
        omega
      · rw [time_of_mem_filter ha]
        exact ⟨hstart, hstop⟩
    · have := hafter.within a ha
      omega
  sorted := by
    rw [List.pairwise_append, List.pairwise_append]
    refine ⟨⟨hbefore.sorted, pairwise_filter_time log mid, ?_⟩, hafter.sorted, ?_⟩
    · intro a ha b hb
      rw [time_of_mem_filter hb]
      exact Nat.le_of_lt (hbefore.within a ha).2
    · intro a ha b hb
      have later := (hafter.within b hb).1
      rcases List.mem_append.1 ha with ha | ha
      · have earlier := (hbefore.within a ha).2
        omega
      · rw [time_of_mem_filter ha]
        exact Nat.le_of_lt later
  complete t ht ht' := by
    rw [List.filter_append, List.filter_append, hbefore.filter_time, hafter.filter_time,
      filter_time_filter_time]
    rcases Nat.lt_trichotomy t mid with hlt | rfl | hgt
    · rw [if_pos ⟨ht, hlt⟩, if_neg (Nat.ne_of_lt hlt), if_neg (by omega), List.append_nil,
        List.append_nil]
    · rw [if_neg (by omega), if_pos rfl, if_neg (by omega), List.nil_append, List.append_nil]
    · rw [if_neg (by omega), if_neg (Nat.ne_of_gt hgt), if_pos ⟨hgt, ht'⟩, List.nil_append,
        List.nil_append]

/-- Each entry between the bounds is in an excerpt as often as it is in the log. -/
theorem perm (h : Excerpt time log start stop l) :
    l.Perm (log.filter fun a => start < time a ∧ time a < stop) := by
  classical
  rw [List.perm_iff_count]
  intro a
  have ofTime (l : List α) : (l.filter (time · = time a)).count a = l.count a :=
    List.count_filter (by simp)
  rw [← ofTime l, h.filter_time]
  split
  · rename_i ha
    rw [ofTime, List.count_filter (by simpa using ha)]
  · rename_i ha
    refine (List.count_eq_zero_of_not_mem fun hmem => ha ?_).symm
    simpa using (List.mem_filter.1 hmem).2

/-- What is seen of the entries makes no difference to an excerpt beyond their time. -/
theorem map {time : β → Nat} {f : α → β} (h : Excerpt (time ∘ f) log start stop l) :
    Excerpt time (log.map f) start stop (l.map f) where
  within := List.forall_mem_map.2 h.within
  sorted := List.pairwise_map.2 h.sorted
  complete t ht ht' := by
    rw [List.filter_map, List.filter_map]
    exact congrArg (List.map f) (h.complete t ht ht')

end Excerpt

/-! ## Putting entries in order -/

theorem trans_time (time : α → Nat) (a b c : α) :
    decide (time a ≤ time b) → decide (time b ≤ time c) → decide (time a ≤ time c) := by
  simp only [decide_eq_true_eq]
  exact Nat.le_trans

theorem total_time (time : α → Nat) (a b : α) :
    decide (time a ≤ time b) || decide (time b ≤ time a) := by
  simp only [Bool.or_eq_true, decide_eq_true_eq]
  exact Nat.le_total ..

/-- Putting entries in order of time leaves those of one time in the order in which they were. -/
theorem filter_time_mergeSort (time : α → Nat) (l : List α) (t : Nat) :
    (l.mergeSort fun a b => time a ≤ time b).filter (time · = t) = l.filter (time · = t) := by
  have kept : (l.filter (time · = t)).Sublist (l.mergeSort fun a b => time a ≤ time b) :=
    List.sublist_mergeSort (trans_time time) (total_time time)
      ((pairwise_filter_time l t).imp decide_eq_true) List.filter_sublist
  have among := kept.filter (time · = t)
  simp only [List.filter_filter, Bool.and_self] at among
  exact (among.eq_of_length ((List.mergeSort_perm ..).filter _).length_eq.symm).symm

/-- The entries between two times, put in order of time, are the excerpt. -/
theorem excerpt_mergeSort (time : α → Nat) (log : List α) (start stop : Nat) :
    Excerpt time log start stop ((log.filter fun a => start < time a ∧ time a < stop).mergeSort
      fun a b => time a ≤ time b) where
  within a ha := by simpa using (List.mem_filter.1 (List.mem_mergeSort.1 ha)).2
  sorted :=
    (List.pairwise_mergeSort (trans_time time) (total_time time) _).imp of_decide_eq_true
  complete t ht ht' := by
    rw [filter_time_mergeSort, List.filter_filter]
    refine List.filter_congr fun a _ => ?_
    by_cases ha : time a = t
    · simp [ha, ht, ht']
    · simp [ha]

end

/-- A query is answered by the excerpt of the snapshots. -/
theorem excerpt_query (h : History) (start stop : Nat) :
    Excerpt Snapshot.time h.snapshots start stop (h.query start stop) :=
  excerpt_mergeSort Snapshot.time h.snapshots start stop

/-! ## Calls -/

/-- An operation of a history, with what it is about. -/
inductive HistoryOp
  | create (id : SnapshotId) (s : Snapshot)
  | query (start stop : Nat)

/-- The answer to an operation. -/
inductive HistoryReply
  | created
  | found (snapshots : List Snapshot)
  | failed (e : StoreError)

/-- The snapshots that are created by operations, with their names. -/
def HistoryOp.created : List HistoryOp → List (SnapshotId × Snapshot)
  | [] => []
  | create id s :: ops => (id, s) :: created ops
  | query _ _ :: ops => created ops

namespace HistoryStore

/-- A history of nothing, which refuses no call. -/
def fresh : HistoryStore := ⟨.empty, false⟩

/-- Answers one operation. -/
def perform (h : HistoryStore) : HistoryOp → HistoryReply × HistoryStore
  | .create _ s =>
    match h.add s with
    | (.ok (), h) => (.created, h)
    | (.error e, h) => (.failed e, h)
  | .query start stop =>
    match h.query start stop with
    | .ok snapshots => (.found snapshots, h)
    | .error e => (.failed e, h)

/-- Answers operations one after the other. -/
def performAll (h : HistoryStore) : List HistoryOp → List HistoryReply × HistoryStore
  | [] => ([], h)
  | op :: ops =>
    let (reply, h) := h.perform op
    let (replies, h) := h.performAll ops
    (reply :: replies, h)

variable {h : HistoryStore}

theorem perform_create (hup : h.down = false) (id : SnapshotId) (s : Snapshot) :
    h.perform (.create id s) = (.created, ⟨⟨h.history.snapshots ++ [s]⟩, false⟩) := by
  obtain ⟨history, down⟩ := h
  subst hup
  rfl

theorem perform_query (hup : h.down = false) (start stop : Nat) :
    h.perform (.query start stop) = (.found (h.history.query start stop), h) := by
  obtain ⟨history, down⟩ := h
  subst hup
  rfl

/-- What is created is in the history in the order of its creation, and nothing else is. -/
theorem history_performAll (hup : h.down = false) (ops : List HistoryOp) :
    (h.performAll ops).2 =
      ⟨⟨h.history.snapshots ++ (HistoryOp.created ops).map Prod.snd⟩, false⟩ := by
  induction ops generalizing h with
  | nil =>
    obtain ⟨history, down⟩ := h
    subst hup
    simp [performAll, HistoryOp.created]
  | cons op ops ih =>
    cases op with
    | create id s =>
      simp only [performAll, perform_create hup]
      rw [ih rfl]
      simp [HistoryOp.created]
    | query start stop =>
      simp only [performAll, perform_query hup]
      rw [ih hup]
      rfl

/-- Whatever has been called before, the history has the snapshots that were created, in the order of
their creation, and a query changes nothing. It is answered by the excerpt of them, in which each is
as often as it was created, and those that differ in their names alone keep their order too. A query
across a moment finds what a query before it finds, what was taken at the moment, and what a query
after it finds. -/
theorem queries_partition (ops : List HistoryOp) (start stop : Nat) :
    ∃ replies h, fresh.performAll ops = (replies, h) ∧
      h.history.snapshots = (HistoryOp.created ops).map Prod.snd ∧
      ∃ found, h.perform (.query start stop) = (.found found, h) ∧
        found.Perm (h.history.snapshots.filter fun s => start < s.time ∧ s.time < stop) ∧
        (∀ l, l = found ↔ Excerpt Snapshot.time h.history.snapshots start stop l) ∧
        (∃ named, Excerpt (Snapshot.time ∘ Prod.snd) (HistoryOp.created ops) start stop named ∧
          named.map Prod.snd = found) ∧
        ∀ mid, start < mid → mid < stop →
          ∃ before after, h.perform (.query start mid) = (.found before, h) ∧
            h.perform (.query mid stop) = (.found after, h) ∧
            found = before ++ h.history.snapshots.filter (·.time = mid) ++ after := by
  obtain ⟨replies, h, hrun⟩ : ∃ replies h, fresh.performAll ops = (replies, h) := ⟨_, _, rfl⟩
  have log := history_performAll (h := fresh) rfl ops
  rw [hrun] at log
  have hup : h.down = false := congrArg down log
  have snapshots : h.history.snapshots = (HistoryOp.created ops).map Prod.snd :=
    congrArg (·.history.snapshots) log
  have excerpt := excerpt_query h.history start stop
  refine ⟨replies, h, hrun, snapshots, h.history.query start stop, perform_query hup start stop,
    excerpt.perm, fun l => ⟨?_, fun hl => hl.eq excerpt⟩, ?_, ?_⟩
  · rintro rfl
    exact excerpt
  · have named := excerpt_mergeSort (Snapshot.time ∘ Prod.snd) (HistoryOp.created ops) start stop
    have unnamed := named.map
    rw [← snapshots] at unnamed
    exact ⟨_, named, unnamed.eq excerpt⟩
  · intro mid hstart hstop
    have before := excerpt_query h.history start mid
    have after := excerpt_query h.history mid stop
    exact ⟨_, _, perform_query hup start mid, perform_query hup mid stop,
      excerpt.eq (before.append after hstart hstop)⟩

/-- The name of sixteen equal bytes. -/
def nameOf (b : UInt8) : SnapshotId :=
  ⟨⟨List.replicate 16 b, List.length_replicate⟩⟩

/-- Snapshots are created out of order, two of them of one time, and a query comes in between. -/
def unordered : List HistoryOp :=
  [.create (nameOf 1) ⟨300, 9, 5⟩, .create (nameOf 2) ⟨200, 9, 4⟩, .query 0 1000,
    .create (nameOf 3) ⟨100, 9, 3⟩, .create (nameOf 4) ⟨200, 8, 2⟩, .create (nameOf 5) ⟨400, 9, 1⟩]

/-- Between the first time and the last one, both excluded, there are three of the five snapshots,
and those of one time keep their order. A query that ends with this time and one that begins with it
leave both of them out. -/
theorem queries_partition_unordered :
    100 < 200 ∧ 200 < 400 ∧ ∃ replies h, fresh.performAll unordered = (replies, h) ∧
      ∃ found before after, h.perform (.query 100 400) = (.found found, h) ∧
        h.perform (.query 100 200) = (.found before, h) ∧
        h.perform (.query 200 400) = (.found after, h) ∧
        found = before ++ [⟨200, 9, 4⟩, ⟨200, 8, 2⟩] ++ after ∧ found.length = 3 := by
  obtain ⟨replies, h, hall, hlog, found, hfound, hperm, -, -, hsplit⟩ :=
    queries_partition unordered 100 400
  obtain ⟨before, after, hbefore, hafter, heq⟩ := hsplit 200 (by decide) (by decide)
  rw [hlog] at hperm heq
  exact ⟨by decide, by decide, replies, h, hall, found, before, after, hfound, hbefore, hafter, heq,
    hperm.length_eq⟩

end HistoryStore

end PeerCensus
