/-!
# Spans of time

How a span of time is shown: as a decimal number of the largest unit it is not shorter than, from
nanoseconds to seconds, with no more places than it needs.

Results:
* `span_seconds`: a whole number of seconds is shown as that number.
-/

namespace PeerCensus.Text

/-- `n` as a fraction of `10 ^ places`: a point and the places, or nothing if all of them are
zero. -/
def fraction (places n : Nat) : String :=
  let digits := (Nat.toDigits 10 (Nat.pow 10 places + n)).drop 1
  let shown := (digits.reverse.dropWhile (· == '0')).reverse
  if shown.isEmpty then "" else "." ++ String.ofList shown

/-- A span of so many nanoseconds. -/
def span (nanos : Nat) : String :=
  let scaled (places : Nat) (unit : String) : String :=
    let size := Nat.pow 10 places
    toString (nanos / size) ++ fraction places (nanos % size) ++ unit
  if 1000000000 ≤ nanos then scaled 9 "s"
  else if 1000000 ≤ nanos then scaled 6 "ms"
  else if 1000 ≤ nanos then scaled 3 "µs"
  else toString nanos ++ "ns"

theorem fraction_zero : fraction 9 0 = "" := by decide

theorem span_seconds (seconds : Nat) (h : 0 < seconds) :
    span (seconds * 1000000000) = toString seconds ++ "s" := by
  have enough : 1000000000 ≤ seconds * 1000000000 := Nat.le_mul_of_pos_left _ h
  have whole : seconds * 1000000000 / Nat.pow 10 9 = seconds := Nat.mul_div_cancel _ (by decide)
  have rest : seconds * 1000000000 % Nat.pow 10 9 = 0 := Nat.mul_mod_left _ _
  rw [span, if_pos enough]
  dsimp only
  rw [whole, rest, fraction_zero, String.append_empty]

end PeerCensus.Text
