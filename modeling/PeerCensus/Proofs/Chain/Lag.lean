import Mathlib.Order.MinMax
import PeerCensus.Chain.Clock

/-!
# How far a head lies behind

A head that lags by more than the threshold is reported with its lag in percent of the expected
slot, rounded down. Two things can go wrong with the percentage. The hundredfold lag is capped at
the largest 64-bit number before it is divided, so that the percentage of a very great lag is too
small. And a lag of less than a hundredth of the expected slot is zero percent, as if there were
none.

Results:
* `classify_of_gt`: what is reported of a head that lags by more than the threshold.
* `classify_exact_iff`: when what is reported is exact.
* `classify_capped`: a head at the very beginning that is reported at twelve percent.
* `reported_behind_iff`: when a head that is not synced is reported as behind.
* `unsynced_at_zero_percent`: a head that is not.
-/

namespace PeerCensus.ChainClock

/-- By how many slots a head lies behind the expected one; zero if it lies ahead. -/
def lag (c : ChainClock) (head now : Nat) : Nat := c.expectedSlot now - head

/-- The lag in percent of the expected slot, rounded down. -/
def percentBehind (c : ChainClock) (head now : Nat) : Nat :=
  100 * c.lag head now / c.expectedSlot now

/-- What is to be reported of a head if numbers have no bound. -/
def exactStatus (c : ChainClock) (head now : Nat) : SyncStatus :=
  if c.lag head now ≤ c.threshold then ⟨true, 0⟩ else ⟨false, c.percentBehind head now⟩

variable {c : ChainClock} {head now : Nat}

theorem expectedSlot_le (c : ChainClock) (now : Nat) : c.expectedSlot now ≤ now :=
  Nat.le_trans (Nat.div_le_self ..) (Nat.sub_le ..)

theorem lag_le_expectedSlot (c : ChainClock) (head now : Nat) :
    c.lag head now ≤ c.expectedSlot now :=
  Nat.sub_le ..

/-- Where a percentage is taken, the expected slot is not zero. -/
theorem expectedSlot_pos (h : c.threshold < c.lag head now) : 0 < c.expectedSlot now :=
  Nat.lt_of_lt_of_le (Nat.zero_lt_of_lt h) (lag_le_expectedSlot c head now)

theorem percentBehind_le (c : ChainClock) (head now : Nat) : c.percentBehind head now ≤ 100 := by
  refine Nat.div_le_of_le_mul ?_
  rw [Nat.mul_comm]
  exact Nat.mul_le_mul_right 100 (lag_le_expectedSlot c head now)

theorem classify_of_le (h : c.lag head now ≤ c.threshold) : c.classify head now = ⟨true, 0⟩ :=
  if_pos h

/-- The cap on the hundredfold lag cuts the percentage off. -/
theorem classify_of_gt (h : c.threshold < c.lag head now) :
    c.classify head now =
      ⟨false, min (c.percentBehind head now) (maxWord / c.expectedSlot now)⟩ := by
  have capped : min (c.lag head now * 100) maxWord / c.expectedSlot now =
      min (c.percentBehind head now) (maxWord / c.expectedSlot now) := by
    rw [percentBehind, Nat.mul_comm 100]
    exact Monotone.map_min (f := (· / c.expectedSlot now)) fun _ _ hle => Nat.div_le_div_right hle
  rw [← capped]
  exact if_neg (Nat.not_le.2 h)

/-! ## When the status is exact -/

theorem classify_eq_synced_iff :
    c.classify head now = ⟨true, 0⟩ ↔ c.lag head now ≤ c.threshold := by
  refine ⟨fun h => ?_, classify_of_le⟩
  by_contra hgt
  rw [classify_of_gt (Nat.not_le.1 hgt)] at h
  cases h

theorem classify_eq_exactStatus_iff :
    c.classify head now = c.exactStatus head now ↔
      (c.threshold < c.lag head now →
        c.percentBehind head now * c.expectedSlot now ≤ maxWord) := by
  rw [exactStatus]
  split
  · rename_i hle
    rw [classify_of_le hle]
    exact iff_of_true rfl fun hgt => absurd hle (Nat.not_le.2 hgt)
  · rename_i hnot
    have hgt := Nat.not_le.1 hnot
    rw [classify_of_gt hgt, SyncStatus.mk.injEq, eq_self, true_and, min_eq_left_iff,
      Nat.le_div_iff_mul_le (expectedSlot_pos hgt)]
    exact ⟨fun h _ => h, fun h => h hgt⟩

theorem distance_le (c : ChainClock) (head now : Nat) : (c.classify head now).distance ≤ 100 := by
  rcases Nat.lt_or_ge c.threshold (c.lag head now) with hgt | hle
  · rw [classify_of_gt hgt]
    exact Nat.le_trans (Nat.min_le_left ..) (percentBehind_le c head now)
  · rw [classify_of_le hle]
    exact Nat.zero_le 100

/-- What is reported of a head is exact unless it lags by more than the threshold and its percentage
of the expected slot, times that slot, is more than the largest 64-bit number. In any case it is
synced at distance zero exactly if it lags by no more than the threshold, no division is by zero,
and no distance is above a hundred. -/
theorem classify_exact_iff (c : ChainClock) (head now : Nat) :
    (c.classify head now = c.exactStatus head now ↔
      (c.threshold < c.lag head now →
        c.percentBehind head now * c.expectedSlot now ≤ maxWord)) ∧
    (c.classify head now = ⟨true, 0⟩ ↔ c.lag head now ≤ c.threshold) ∧
    (c.threshold < c.lag head now → 0 < c.expectedSlot now) ∧ 0 < max c.slotSeconds 1 ∧
    (c.classify head now).distance ≤ 100 :=
  ⟨classify_eq_exactStatus_iff, classify_eq_synced_iff, expectedSlot_pos, by omega,
    distance_le c head now⟩

/-- At the largest 64-bit time a head at the very beginning of the main network lags by a hundred
percent, and is reported at twelve. -/
theorem classify_capped :
    mainnet.lag 0 maxWord = mainnet.expectedSlot maxWord ∧
      mainnet.exactStatus 0 maxWord = ⟨false, 100⟩ ∧
      mainnet.classify 0 maxWord = ⟨false, 12⟩ := by
  decide

/-! ## When a head is reported as behind -/

/-- A head that is not synced is reported as behind if it lags by a hundredth of the expected slot
or more. The cap does no harm here, since the slot is itself a 64-bit number. -/
theorem distance_pos_iff (hnow : now ≤ maxWord) (h : c.threshold < c.lag head now) :
    0 < (c.classify head now).distance ↔ c.expectedSlot now ≤ 100 * c.lag head now := by
  have hslot := expectedSlot_pos h
  have hword : 0 < maxWord / c.expectedSlot now :=
    Nat.div_pos (Nat.le_trans (expectedSlot_le c now) hnow) hslot
  rw [classify_of_gt h]
  dsimp only
  rw [Nat.lt_min, and_iff_left hword, percentBehind, Nat.div_pos_iff, and_iff_right hslot]

/-- A distance above zero tells a head that is not synced from one that is, unless it lags by more
than the threshold but less than a hundredth of the expected slot. So one slot past the threshold it
does as long as the expected slot is at most a hundred times that lag. -/
theorem reported_behind_iff (c : ChainClock) (head : Nat) (now : UInt64) :
    ((0 < (c.classify head now.toNat).distance ↔ (c.classify head now.toNat).synced = false) ↔
      (c.threshold < c.lag head now.toNat →
        c.expectedSlot now.toNat ≤ 100 * c.lag head now.toNat)) ∧
    (c.lag head now.toNat = c.threshold + 1 →
      (c.classify head now.toNat).synced = false ∧
        (0 < (c.classify head now.toNat).distance ↔
          c.expectedSlot now.toNat ≤ 100 * (c.threshold + 1))) := by
  have hnow : now.toNat ≤ maxWord := Nat.le_of_lt_succ now.toNat_lt
  constructor
  · rcases Nat.lt_or_ge c.threshold (c.lag head now.toNat) with hgt | hle
    · rw [distance_pos_iff hnow hgt, classify_of_gt hgt, eq_self, iff_true,
        forall_prop_of_true hgt]
    · rw [classify_of_le hle]
      exact iff_of_true (by simp) fun hgt => absurd hle (Nat.not_le.2 hgt)
  · intro hpast
    have hgt : c.threshold < c.lag head now.toNat := by omega
    rw [distance_pos_iff hnow hgt, classify_of_gt hgt, hpast]
    exact ⟨rfl, Iff.rfl⟩

/-- On the main network a head one slot past the threshold has been reported at zero percent since
the expected slot has passed 819300. -/
theorem unsynced_at_zero_percent :
    mainnet.expectedSlot 1616655612 = 819301 ∧
      mainnet.lag 811108 1616655612 = mainnet.threshold + 1 ∧
      mainnet.classify 811108 1616655612 = ⟨false, 0⟩ := by
  decide

end PeerCensus.ChainClock
