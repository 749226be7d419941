/-!
# Scores

A peer starts with a good score, loses a point with every sequence of attempts that fails, and is
given up when no points are left.

Results:
* `isBad_lowered_iff`, `lowered_of_not_bad`: what one more failure makes of a score.
-/

namespace PeerCensus

/-- How many failures a peer may still have. -/
structure Score where
  value : Int
  deriving DecidableEq, Repr

namespace Score

/-- The score of a peer that answered last, or that is new. -/
def good : Score := ⟨3⟩

/-- The highest score at which a peer is given up. -/
def bad : Score := ⟨0⟩

/-- The score after one more failure. It stops falling one point below `bad`. Model of
`decremented`. -/
def lowered (s : Score) : Score :=
  ⟨max (s.value - 1) (bad.value - 1)⟩

/-- Whether the peer should be given up. Model of `is_bad`. -/
def isBad (s : Score) : Bool :=
  s.value ≤ bad.value

/-- The text of a score. -/
def render (s : Score) : String :=
  toString s.value

theorem isBad_iff (s : Score) : s.isBad = true ↔ s.value ≤ 0 := decide_eq_true_iff

theorem value_lowered (s : Score) : s.lowered.value = max (s.value - 1) (-1) := rfl

theorem isBad_lowered_iff (s : Score) : s.lowered.isBad = true ↔ s.value - 1 ≤ bad.value := by
  rw [isBad_iff, value_lowered]
  show max (s.value - 1) (-1) ≤ 0 ↔ s.value - 1 ≤ 0
  omega

/-- The stop matters to bad scores only. -/
theorem lowered_of_not_bad {s : Score} (h : ¬ s.value - 1 ≤ bad.value) :
    s.lowered = ⟨s.value - 1⟩ := by
  have hpos : ¬ s.value - 1 ≤ 0 := h
  have same : s.lowered.value = s.value - 1 := by
    rw [value_lowered]
    omega
  rw [← same]

end Score

end PeerCensus
