import Mathlib.Algebra.Order.Floor.Semifield
import Mathlib.Data.Rat.Floor
import PeerCensus.Chain.Clock

/-!
# Counting slots

Slots follow one another from the beginning of the chain, so the slot at a time is the time that has
passed divided by the length of a slot, rounded down. The clock divides by the whole seconds of that
length, and by one second if there are none. Of slots that last a second or longer it counts too
many, and of shorter ones too few; it counts right as long as what it leaves out of each slot does
not add up to a slot.

Results:
* `dueSlot_le_expectedSlot`, `expectedSlot_le_dueSlot`: to which side the clock errs.
* `expectedSlot_eq_dueSlot_iff`: at which times it is right.
* `expectedSlot_exact_iff`: it is right at all times exactly if slots last whole seconds.
* `slots_miscounted`: two clocks that are wrong.
-/

namespace PeerCensus.ChainClock

/-- The length of a slot in seconds. -/
def slotLength (c : ChainClock) : ℚ := c.slotNanos / 1000000000

/-- The slot at the time `now`: the time since the chain began, divided by the length of a slot and
rounded down. Before the chain began it is zero. -/
def dueSlot (c : ChainClock) (now : Nat) : Nat :=
  if c.genesis ≤ now then ⌊((now : ℚ) - c.genesis) / c.slotLength⌋₊ else 0

/-- What the whole seconds leave out of a slot, in nanoseconds. -/
def slotFraction (c : ChainClock) : Nat := c.slotNanos % 1000000000

theorem slotNanos_eq (c : ChainClock) :
    c.slotNanos = c.slotSeconds * 1000000000 + c.slotFraction :=
  (Nat.div_add_mod' ..).symm

/-- The exact quotient, counted in nanoseconds. -/
theorem dueSlot_eq_div (c : ChainClock) (now : Nat) :
    c.dueSlot now = (now - c.genesis) * 1000000000 / c.slotNanos := by
  unfold dueSlot
  split
  · rename_i hbegun
    have quotient : ((now : ℚ) - c.genesis) / c.slotLength =
        (((now - c.genesis) * 1000000000 : ℕ) : ℚ) / (c.slotNanos : ℚ) := by
      rw [slotLength, div_div_eq_mul_div]
      push_cast [Nat.cast_sub hbegun]
      rfl
    rw [quotient, Nat.floor_div_eq_div]
  · rename_i hbefore
    rw [Nat.sub_eq_zero_of_le (Nat.le_of_not_le hbefore), Nat.zero_mul, Nat.zero_div]

variable {c : ChainClock}

/-! ## Slots of a second or longer -/

theorem expectedSlot_of_long (h : 0 < c.slotSeconds) (now : Nat) :
    c.expectedSlot now = (now - c.genesis) / c.slotSeconds := by
  rw [expectedSlot, Nat.max_eq_left h]

/-- Of slots that last a second or longer the clock does not count too few. -/
theorem dueSlot_le_expectedSlot (h : 0 < c.slotSeconds) (now : Nat) :
    c.dueSlot now ≤ c.expectedSlot now := by
  rw [dueSlot_eq_div, expectedSlot_of_long h]
  calc (now - c.genesis) * 1000000000 / c.slotNanos
      ≤ (now - c.genesis) * 1000000000 / (c.slotSeconds * 1000000000) :=
        Nat.div_le_div_left (by rw [slotNanos_eq]; omega) (by omega)
    _ = (now - c.genesis) / c.slotSeconds := Nat.mul_div_mul_right _ _ (by omega)

/-- The slot that the clock shows has begun exactly if what the clock left out of the slots before
it fits into the seconds that it has not yet counted as a slot. -/
theorem expectedSlot_le_dueSlot_iff (h : 0 < c.slotSeconds) (now : Nat) :
    c.expectedSlot now ≤ c.dueSlot now ↔
      c.expectedSlot now * c.slotFraction ≤ (now - c.genesis) % c.slotSeconds * 1000000000 := by
  rw [dueSlot_eq_div, Nat.le_div_iff_mul_le (by rw [slotNanos_eq]; omega), expectedSlot_of_long h]
  generalize now - c.genesis = passed
  have whole : passed = c.slotSeconds * (passed / c.slotSeconds) + passed % c.slotSeconds :=
    (Nat.div_add_mod ..).symm
  generalize passed / c.slotSeconds = counted at *
  generalize passed % c.slotSeconds = rest at *
  -- the whole seconds of the slots that were counted stand on both sides
  rw [slotNanos_eq, whole, Nat.mul_add, Nat.add_mul,
    show counted * (c.slotSeconds * 1000000000) = c.slotSeconds * counted * 1000000000 by ring]
  exact Nat.add_le_add_iff_left

/-! ## Slots shorter than a second -/

theorem expectedSlot_of_short (h : c.slotSeconds = 0) (now : Nat) :
    c.expectedSlot now = now - c.genesis := by
  rw [expectedSlot, h, Nat.max_eq_right (Nat.zero_le 1), Nat.div_one]

theorem slotNanos_lt_of_short (h : c.slotSeconds = 0) : c.slotNanos < 1000000000 := by
  unfold slotSeconds at h
  omega

/-- Of slots shorter than a second the clock does not count too many. -/
theorem expectedSlot_le_dueSlot (hslot : 0 < c.slotNanos) (h : c.slotSeconds = 0) (now : Nat) :
    c.expectedSlot now ≤ c.dueSlot now := by
  rw [dueSlot_eq_div, expectedSlot_of_short h, Nat.le_div_iff_mul_le hslot]
  exact Nat.mul_le_mul_left _ (slotNanos_lt_of_short h).le

/-- The slot after the one that the clock shows has not begun exactly if what is left of each second
after one slot does not add up to another. -/
theorem dueSlot_le_expectedSlot_iff (hslot : 0 < c.slotNanos) (h : c.slotSeconds = 0) (now : Nat) :
    c.dueSlot now ≤ c.expectedSlot now ↔
      (now - c.genesis) * (1000000000 - c.slotNanos) < c.slotNanos := by
  rw [← Nat.lt_succ_iff, dueSlot_eq_div, Nat.div_lt_iff_lt_mul hslot, expectedSlot_of_short h]
  generalize now - c.genesis = passed
  have counted : passed * c.slotNanos ≤ passed * 1000000000 :=
    Nat.mul_le_mul_left _ (slotNanos_lt_of_short h).le
  rw [Nat.mul_sub, Nat.succ_mul]
  omega

/-! ## When the clock is right -/

/-- Whether what the clock leaves out has not yet added up to a slot: of slots shorter than a second
it counts one a second and leaves out what is left of the second, of longer ones it leaves out the
fraction of a second. -/
def OnTime (c : ChainClock) (now : Nat) : Prop :=
  if c.slotSeconds = 0 then (now - c.genesis) * (1000000000 - c.slotNanos) < c.slotNanos
  else c.expectedSlot now * c.slotFraction ≤ (now - c.genesis) % c.slotSeconds * 1000000000

/-- The clock is right as long as what it leaves out has not added up to a slot. -/
theorem expectedSlot_eq_dueSlot_iff (hslot : 0 < c.slotNanos) (now : Nat) :
    c.expectedSlot now = c.dueSlot now ↔ c.OnTime now := by
  rw [OnTime]
  split
  · rename_i hshort
    rw [← dueSlot_le_expectedSlot_iff hslot hshort]
    exact ⟨fun h => h.ge, fun h => Nat.le_antisymm (expectedSlot_le_dueSlot hslot hshort now) h⟩
  · rename_i hlong
    have long := Nat.pos_of_ne_zero hlong
    rw [← expectedSlot_le_dueSlot_iff long]
    exact ⟨fun h => h.le, fun h => Nat.le_antisymm h (dueSlot_le_expectedSlot long now)⟩

theorem onTime_of_dvd (hslot : 0 < c.slotNanos) (h : 1000000000 ∣ c.slotNanos) (now : Nat) :
    c.OnTime now := by
  have long : c.slotSeconds ≠ 0 := (Nat.div_pos (Nat.le_of_dvd hslot h) (by decide)).ne'
  rw [OnTime, if_neg long, slotFraction, Nat.mod_eq_zero_of_dvd h, Nat.mul_zero]
  exact Nat.zero_le _

/-- A clock that leaves something out is wrong when it counts its first slot, if slots last a second
or longer, and otherwise no later than after as many seconds as a second has nanoseconds. -/
theorem exists_not_onTime (h : ¬1000000000 ∣ c.slotNanos) :
    ∃ now ≤ c.genesis + max c.slotSeconds 1000000000, ¬c.OnTime now := by
  by_cases hshort : c.slotSeconds = 0
  · refine ⟨c.genesis + 1000000000, by omega, ?_⟩
    have short := slotNanos_lt_of_short hshort
    rw [OnTime, if_pos hshort, Nat.add_sub_cancel_left]
    omega
  · refine ⟨c.genesis + c.slotSeconds, by omega, ?_⟩
    have long := Nat.pos_of_ne_zero hshort
    have left : 0 < c.slotFraction := Nat.emod_pos_of_not_dvd h
    rw [OnTime, if_neg hshort, expectedSlot_of_long long, Nat.add_sub_cancel_left,
      Nat.div_self long, Nat.mod_self]
    omega

/-- The clock counts the slots that have passed as long as what it leaves out of each has not added
up to a slot. That is at all times if slots last whole seconds, and otherwise it goes wrong. -/
theorem expectedSlot_exact_iff (c : ChainClock) (hslot : 0 < c.slotNanos) :
    (∀ now, c.expectedSlot now = c.dueSlot now ↔ c.OnTime now) ∧
      (1000000000 ∣ c.slotNanos → ∀ now, c.expectedSlot now = c.dueSlot now) ∧
      (¬1000000000 ∣ c.slotNanos → ∃ now ≤ c.genesis + max c.slotSeconds 1000000000,
        c.expectedSlot now ≠ c.dueSlot now) := by
  refine ⟨expectedSlot_eq_dueSlot_iff hslot, fun hwhole now => ?_, fun hpart => ?_⟩
  · exact (expectedSlot_eq_dueSlot_iff hslot now).2 (onTime_of_dvd hslot hwhole now)
  · obtain ⟨now, hnow, hwrong⟩ := exists_not_onTime hpart
    exact ⟨now, hnow, fun h => hwrong ((expectedSlot_eq_dueSlot_iff hslot now).1 h)⟩

/-- Slots of one and a half seconds from time zero on. -/
def sesqui : ChainClock := ⟨0, 1500000000, 0⟩

/-- Slots of half a second from time zero on. -/
def half : ChainClock := ⟨0, 500000000, 0⟩

/-- On the main network the clock is right at all times; with slots of one and a half seconds it is
not. -/
theorem expectedSlot_exact_mainnet :
    (0 < mainnet.slotNanos ∧ 1000000000 ∣ mainnet.slotNanos ∧
      ∀ now, mainnet.expectedSlot now = mainnet.dueSlot now) ∧
    (0 < sesqui.slotNanos ∧ ¬1000000000 ∣ sesqui.slotNanos ∧
      ∃ now ≤ 1000000000, sesqui.expectedSlot now ≠ sesqui.dueSlot now) := by
  refine ⟨⟨by decide, by decide, ?_⟩, by decide, by decide, ?_⟩
  · exact (expectedSlot_exact_iff mainnet (by decide)).2.1 (by decide)
  · exact (expectedSlot_exact_iff sesqui (by decide)).2.2 (by decide)

/-- After a hundred seconds the clock counts a hundred slots, whether slots last one and a half
seconds or half a second. -/
theorem slots_miscounted :
    (0 < sesqui.slotNanos ∧ sesqui.expectedSlot 100 = 100 ∧ sesqui.dueSlot 100 = 66) ∧
    (0 < half.slotNanos ∧ half.expectedSlot 100 = 100 ∧ half.dueSlot 100 = 200) := by
  rw [dueSlot_eq_div, dueSlot_eq_div]
  decide

end PeerCensus.ChainClock
