import Mathlib.Algebra.BigOperators.Group.List.Lemmas
import Mathlib.Data.List.Sort
import PeerCensus.Proofs.Discovery.Intake
import PeerCensus.Store.Statistics

/-!
# Statistics agree with each other

A ranking of names shows each name that occurs once, with how often it occurs, larger counts first
and names in order among equals. Names determine their ranking, since of two of its entries one has
to come before the other; so no list of counts depends on the order in which the peers are kept. The
counts of a ranking add up to the number of names, and all statistics are made from the same
connectable peers: they agree on how many there are, and those by client and by version agree on
every client that peers have named.

Results:
* `ranks_counted`, `Ranks.eq`: the counts are the one ranking of the names.
* `Ranks.total`: they add up to the number of names.
* `mem_byVersion_iff`: the statistics by version say of each client what those by client say.
* `statistics_consistent`: all of this for all six statistics.
-/

namespace PeerCensus

namespace NameCount

/-- Whether `a` comes before `b` in a ranking: it counts more, or as much under a smaller name. -/
def Above (a b : NameCount) : Prop :=
  b.count < a.count ∨ a.count = b.count ∧ a.name < b.name

/-- Of two entries at most one comes before the other. -/
instance : Std.Asymm Above where
  asymm a b hab hba := by
    rcases hab with hab | ⟨heq, hab⟩
    · rcases hba with hba | ⟨heq, -⟩
      · exact Nat.lt_asymm hab hba
      · exact hab.ne heq
    · rcases hba with hba | ⟨-, hba⟩
      · exact hba.ne heq
      · exact String.lt_asymm hab hba

theorem before_iff {a b : NameCount} :
    a.before b = true ↔ b.count < a.count ∨ a.count = b.count ∧ a.name ≤ b.name := by
  simp only [before, Bool.or_eq_true, Bool.and_eq_true, decide_eq_true_eq, beq_iff_eq,
    Bool.not_eq_true', decide_eq_false_iff_not, String.not_lt]

theorem before_trans (a b c : NameCount) (hab : a.before b = true) (hbc : b.before c = true) :
    a.before c = true := by
  rw [before_iff] at *
  rcases hab with hab | ⟨hab, hab'⟩
  · rcases hbc with hbc | ⟨hbc, -⟩
    · exact .inl (Nat.lt_trans hbc hab)
    · exact .inl (hbc ▸ hab)
  · rcases hbc with hbc | ⟨hbc, hbc'⟩
    · exact .inl (hab ▸ hbc)
    · exact .inr ⟨hab.trans hbc, String.le_trans hab' hbc'⟩

theorem before_total (a b : NameCount) : (a.before b || b.before a) = true := by
  rw [Bool.or_eq_true, before_iff, before_iff]
  rcases Nat.lt_trichotomy a.count b.count with hlt | heq | hgt
  · exact .inr (.inl hlt)
  · exact (String.le_total a.name b.name).imp (.inr ⟨heq, ·⟩) (.inr ⟨heq.symm, ·⟩)
  · exact .inl (.inl hgt)

/-- Of entries with different names one comes before the other. -/
theorem above_of_before {a b : NameCount} (h : a.before b = true) (hne : a.name ≠ b.name) :
    a.Above b := by
  rcases before_iff.1 h with hlt | ⟨heq, hle⟩
  · exact .inl hlt
  · exact .inr ⟨heq, String.not_le.1 fun hge => hne (String.le_antisymm hle hge)⟩

end NameCount

/-! ## Rankings -/

/-- The sum of all counts. -/
def sumCounts (l : List NameCount) : Nat :=
  (l.map NameCount.count).foldr (· + ·) 0

/-- What it is to rank names. -/
structure Ranks (names : List String) (l : List NameCount) : Prop where
  /-- No name is shown twice. -/
  nodup : (l.map NameCount.name).Nodup
  /-- Each entry comes before all that are shown after it. -/
  sorted : l.Pairwise NameCount.Above
  /-- The names that occur are shown, each with how often it occurs. -/
  mem_iff : ∀ name count, ⟨name, count⟩ ∈ l ↔ 0 < count ∧ names.count name = count

theorem nodup_eraseDups (names : List String) : names.eraseDups.Nodup := by
  match names with
  | [] => exact List.nodup_nil
  | name :: names =>
    rw [List.eraseDups_cons, List.nodup_cons, List.mem_eraseDups]
    exact ⟨by simp, nodup_eraseDups _⟩
termination_by names.length
decreasing_by exact Nat.lt_succ_of_le (List.length_filter_le ..)

theorem counted_perm (names : List String) :
    (counted names).Perm (names.eraseDups.map fun name => ⟨name, names.count name⟩) :=
  List.mergeSort_perm ..

theorem map_name_counted (names : List String) :
    ((counted names).map NameCount.name).Perm names.eraseDups := by
  have same := (counted_perm names).map NameCount.name
  rwa [List.map_map, List.map_id''] at same
  exact fun _ => rfl

/-- The counts are a ranking of the names. -/
theorem ranks_counted (names : List String) : Ranks names (counted names) where
  nodup := (map_name_counted names).nodup_iff.2 (nodup_eraseDups names)
  sorted := by
    have distinct := (map_name_counted names).nodup_iff.2 (nodup_eraseDups names)
    have sorted : (counted names).Pairwise fun a b => a.before b = true :=
      List.pairwise_mergeSort NameCount.before_trans NameCount.before_total _
    exact sorted.imp₂ (fun _ _ => NameCount.above_of_before) (List.pairwise_map.1 distinct)
  mem_iff name count := by
    rw [(counted_perm names).mem_iff, List.mem_map]
    constructor
    · rintro ⟨_, hname, h⟩
      cases h
      exact ⟨List.count_pos_iff.2 (List.mem_eraseDups.1 hname), rfl⟩
    · rintro ⟨hpos, rfl⟩
      exact ⟨name, List.mem_eraseDups.2 (List.count_pos_iff.1 hpos), rfl⟩

namespace Ranks

variable {names names' : List String} {l l' : List NameCount}

/-- Names determine their ranking. -/
theorem eq (h : Ranks names l) (h' : Ranks names l') : l = l' :=
  h.sorted.eq_of_mem_iff h'.sorted fun c => (h.mem_iff c.name c.count).trans (h'.mem_iff ..).symm

/-- A ranking does not depend on the order of the names. -/
theorem perm (h : Ranks names l) (same : names.Perm names') : Ranks names' l where
  nodup := h.nodup
  sorted := h.sorted
  mem_iff name count := by rw [h.mem_iff, same.count_eq]

/-- The counts of a ranking add up to the number of names. -/
theorem total (h : Ranks names l) : sumCounts l = names.length := by
  have distinct : names.eraseDups.Perm names.dedup :=
    (List.perm_ext_iff_of_nodup (nodup_eraseDups names) names.nodup_dedup).2 fun name => by
      rw [List.mem_eraseDups, List.mem_dedup]
  have counts := ((counted_perm names).map NameCount.count).sum_eq
  rw [h.eq (ranks_counted names), sumCounts, ← List.sum_eq_foldr, counts, List.map_map,
    ← List.sum_map_count_dedup_eq_length names]
  exact (distinct.map _).sum_eq

end Ranks

theorem counted_congr {names names' : List String} (same : names.Perm names') :
    counted names = counted names' :=
  ((ranks_counted names).perm same).eq (ranks_counted names')

theorem Client.name_injective : Function.Injective Client.name := by
  have distinct : (Client.all.map Client.name).Nodup := by decide
  exact fun a b h => List.inj_on_of_nodup_map distinct (mem_all a) (mem_all b) h

namespace Statistics

/-! ## What is counted -/

/-- The client under which a peer is counted. -/
def clientOf (p : Peer) : Client := (p.agent.map Agent.client).getD .others

/-- The operating system under which a peer is counted. -/
def osOf (p : Peer) : Os := (p.agent.map Agent.os).getD .unknown

/-- The use of the network of a peer, where it is known. -/
def usageOf? (p : Peer) : Option NetworkUsage :=
  p.location.bind fun location => location.network.usage

variable {peers peers' : List Peer}

theorem perm_connectable (same : peers.Perm peers') :
    (connectable peers).Perm (connectable peers') :=
  same.filter _

theorem perm_versionsOf (same : peers.Perm peers') (client : Client) :
    (versionsOf client peers).Perm (versionsOf client peers') :=
  (perm_connectable same).filterMap _

theorem ranks_byClient (peers : List Peer) :
    Ranks ((connectable peers).map fun p => (clientOf p).name) (byClient peers) :=
  ranks_counted _

theorem ranks_byOs (peers : List Peer) :
    Ranks ((connectable peers).map fun p => (osOf p).name) (byOs peers) :=
  ranks_counted _

theorem ranks_byCountry (peers : List Peer) :
    Ranks ((connectable peers).map countryOf) (byCountry peers) :=
  ranks_counted _

theorem ranks_byNetwork (peers : List Peer) :
    Ranks ((connectable peers).filterMap fun p => (usageOf? p).map NetworkUsage.name)
      (byNetwork peers) :=
  ranks_counted _

/-! ## Clients and their versions -/

/-- What is shown of a client by version. -/
def versionCount (peers : List Peer) (client : Client) : ClientCount :=
  ⟨client, (versionsOf client peers).length, counted (versionsOf client peers)⟩

theorem byVersion_perm (peers : List Peer) :
    (byVersion peers).Perm ((Client.all.map (versionCount peers)).filter fun c => 0 < c.count) :=
  List.mergeSort_perm ..

theorem mem_byVersion_iff {c : ClientCount} :
    c ∈ byVersion peers ↔ 0 < c.count ∧ c = versionCount peers c.client := by
  rw [(byVersion_perm peers).mem_iff, List.mem_filter, decide_eq_true_eq, and_comm, List.mem_map]
  refine and_congr_right fun _ => ⟨?_, fun h => ⟨c.client, Client.mem_all _, h.symm⟩⟩
  rintro ⟨client, -, rfl⟩
  rfl

theorem nodup_byVersion (peers : List Peer) : ((byVersion peers).map ClientCount.client).Nodup := by
  have shown : ((Client.all.map (versionCount peers)).map ClientCount.client).Nodup := by
    rw [List.map_map]
    exact (by decide : Client.all.Nodup)
  exact ((byVersion_perm peers).map _).nodup_iff.2 (shown.sublist (List.filter_sublist.map _))

theorem sorted_byVersion (peers : List Peer) :
    (byVersion peers).Pairwise fun a b => b.count ≤ a.count := by
  have sorted : (byVersion peers).Pairwise fun a b => decide (b.count ≤ a.count) = true := by
    refine List.pairwise_mergeSort (fun a b c hab hbc => ?_) (fun a b => ?_) _
    · rw [decide_eq_true_eq] at *
      exact Nat.le_trans hbc hab
    · rw [Bool.or_eq_true, decide_eq_true_eq, decide_eq_true_eq]
      exact Nat.le_total ..
  exact sorted.imp of_decide_eq_true

/-- Those who are counted under a client that has a name of its own have named it, and a version. -/
theorem count_clientOf {client : Client} (h : client ≠ .others) (peers : List Peer) :
    ((connectable peers).map fun p => (clientOf p).name).count client.name =
      (versionsOf client peers).length := by
  rw [versionsOf, List.length_filterMap_eq_countP, List.count_eq_countP, List.countP_map]
  refine List.countP_congr fun p _ => ?_
  rw [Function.comp_apply, beq_iff_eq, Client.name_injective.eq_iff, Option.isSome_map, clientOf]
  cases p.agent with
  | none => simpa using h.symm
  | some agent => simp [Option.filter]

/-- The statistics by version say of each client that has a name of its own what those by client
say. -/
theorem mem_byClient_iff {client : Client} (h : client ≠ .others) (peers : List Peer) (n : Nat) :
    ⟨client.name, n⟩ ∈ byClient peers ↔ ∃ versions, ⟨client, n, versions⟩ ∈ byVersion peers := by
  rw [(ranks_byClient peers).mem_iff, count_clientOf h]
  simp only [mem_byVersion_iff]
  constructor
  · rintro ⟨hpos, rfl⟩
    exact ⟨_, hpos, rfl⟩
  · rintro ⟨versions, hpos, heq⟩
    exact ⟨hpos, (congrArg ClientCount.count heq).symm⟩

theorem ranks_versions {c : ClientCount} (h : c ∈ byVersion peers) :
    Ranks (versionsOf c.client peers) c.versions := by
  rw [(mem_byVersion_iff.1 h).2]
  exact ranks_counted _

/-- The counts of the versions of a client add up to its own. -/
theorem total_versions {c : ClientCount} (h : c ∈ byVersion peers) :
    sumCounts c.versions = c.count := by
  rw [(ranks_versions h).total, (mem_byVersion_iff.1 h).2, versionCount]

/-! ## All six -/

theorem byVersion_congr (same : peers.Perm peers') : byVersion peers = byVersion peers' := by
  have entries : versionCount peers = versionCount peers' := by
    funext client
    have versions := perm_versionsOf same client
    rw [versionCount, versionCount, counted_congr versions, versions.length_eq]
  show List.mergeSort (((Client.all.map (versionCount peers)).filter _)) _ = _
  rw [entries]
  rfl

theorem bySync_congr (same : peers.Perm peers') : bySync peers = bySync peers' := by
  have counted := perm_connectable same
  simp only [bySync, counted.length_eq, counted.countP_eq]

theorem bySync_add (peers : List Peer) :
    (bySync peers).synced + (bySync peers).unsynced = (connectable peers).length := by
  rw [List.length_eq_countP_add_countP isSynced]
  simp only [bySync, Bool.not_eq_true, Bool.decide_eq_false]

theorem total_byNetwork (peers : List Peer) :
    sumCounts (byNetwork peers) = (connectable peers).countP fun p => (usageOf? p).isSome := by
  rw [(ranks_byNetwork peers).total, List.length_filterMap_eq_countP]
  simp only [Option.isSome_map]

/-- The lists of counts rank the clients, operating systems, countries and known uses of networks of
the connectable peers, and within a client the versions. Clients come once each, larger ones first.
All counts add up to the number of connectable peers, and those of uses to the number of those whose
use is known. A client with a name of its own is shown by version exactly if it is shown by client,
and with the same count, to which its versions add up. Nothing of this depends on the order of the
peers. -/
theorem statistics_consistent (peers : List Peer) :
    (Ranks ((connectable peers).map fun p => (clientOf p).name) (byClient peers) ∧
      Ranks ((connectable peers).map fun p => (osOf p).name) (byOs peers) ∧
      Ranks ((connectable peers).map countryOf) (byCountry peers) ∧
      Ranks ((connectable peers).filterMap fun p => (usageOf? p).map NetworkUsage.name)
        (byNetwork peers) ∧
      ∀ c ∈ byVersion peers, Ranks (versionsOf c.client peers) c.versions) ∧
    (((byVersion peers).map ClientCount.client).Nodup ∧
      (byVersion peers).Pairwise fun a b => b.count ≤ a.count) ∧
    (sumCounts (byClient peers) = (bySync peers).total ∧
      sumCounts (byOs peers) = (bySync peers).total ∧
      sumCounts (byCountry peers) = (bySync peers).total ∧
      (bySync peers).synced + (bySync peers).unsynced = (bySync peers).total ∧
      (bySync peers).total = (connectable peers).length ∧
      sumCounts (byNetwork peers) = (connectable peers).countP fun p => (usageOf? p).isSome) ∧
    ((∀ client ≠ Client.others, ∀ n, ⟨client.name, n⟩ ∈ byClient peers ↔
        ∃ versions, ⟨client, n, versions⟩ ∈ byVersion peers) ∧
      ∀ c ∈ byVersion peers, sumCounts c.versions = c.count) ∧
    ∀ peers', peers.Perm peers' →
      byClient peers = byClient peers' ∧ byOs peers = byOs peers' ∧
        byCountry peers = byCountry peers' ∧ byNetwork peers = byNetwork peers' ∧
        bySync peers = bySync peers' ∧ byVersion peers = byVersion peers' := by
  refine ⟨⟨ranks_byClient peers, ranks_byOs peers, ranks_byCountry peers, ranks_byNetwork peers,
      fun _ => ranks_versions⟩, ⟨nodup_byVersion peers, sorted_byVersion peers⟩,
    ⟨?_, ?_, ?_, bySync_add peers, rfl, total_byNetwork peers⟩,
    ⟨fun _ h => mem_byClient_iff h peers, fun _ => total_versions⟩, fun peers' same => ?_⟩
  · rw [(ranks_byClient peers).total, List.length_map]
    rfl
  · rw [(ranks_byOs peers).total, List.length_map]
    rfl
  · rw [(ranks_byCountry peers).total, List.length_map]
    rfl
  · have counted := perm_connectable same
    exact ⟨counted_congr (counted.map _), counted_congr (counted.map _),
      counted_congr (counted.map _), counted_congr (counted.filterMap _), bySync_congr same,
      byVersion_congr same⟩

end Statistics

namespace Newcomer

/-- Three peers that have answered, two of them with one client in two versions and one without a
word about itself, and one that has not. -/
def crowd : List Peer :=
  [{ peer with connectable := true, agent := some ⟨.teku, "v23.10.0", .linux⟩ },
    { peer with connectable := true, agent := some ⟨.teku, "v23.9.1", .mac⟩ },
    { peer with connectable := true }, peer]

end Newcomer

/-- Read backwards, the crowd has the same statistics; two of it run the one client that has been
named, in versions that add up to two. -/
theorem statistics_consistent_reversed :
    Newcomer.crowd.Perm Newcomer.crowd.reverse ∧ Client.teku ≠ .others ∧
      ⟨Client.teku.name, 2⟩ ∈ Statistics.byClient Newcomer.crowd ∧
      (∃ c ∈ Statistics.byVersion Newcomer.crowd, c.client = .teku ∧ sumCounts c.versions = 2) ∧
      sumCounts (Statistics.byOs Newcomer.crowd) = 3 ∧
      Statistics.byClient Newcomer.crowd = Statistics.byClient Newcomer.crowd.reverse ∧
      Statistics.byVersion Newcomer.crowd = Statistics.byVersion Newcomer.crowd.reverse := by
  have same : Newcomer.crowd.Perm Newcomer.crowd.reverse := (List.reverse_perm _).symm
  obtain ⟨⟨ranks, -⟩, -, ⟨-, os, -, -, all, -⟩, ⟨clients, versions⟩, perm⟩ :=
    Statistics.statistics_consistent Newcomer.crowd
  have shown : ⟨Client.teku.name, 2⟩ ∈ Statistics.byClient Newcomer.crowd :=
    (ranks.mem_iff _ _).2 (by decide)
  obtain ⟨_, hmem⟩ := (clients .teku (by decide) 2).1 shown
  exact ⟨same, by decide, shown, ⟨_, hmem, rfl, versions _ hmem⟩, os.trans all,
    (perm _ same).1, (perm _ same).2.2.2.2.2⟩

end PeerCensus
