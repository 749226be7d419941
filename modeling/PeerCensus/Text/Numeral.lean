/-!
# Numerals

Natural numbers as ASCII digits to a base up to sixteen, without blanks or separators.

Results:
* `value_append_singleton`: one more digit multiplies by the base and adds the digit.
-/

namespace PeerCensus.Numeral

/-- The value of `c` as a digit to the base `radix`, letters of either case counting from ten. -/
def digit? (radix : Nat) (c : Char) : Option Nat :=
  let d :=
    if '0' ≤ c ∧ c ≤ '9' then c.toNat - 48
    else if 'a' ≤ c ∧ c ≤ 'f' then c.toNat - 87
    else if 'A' ≤ c ∧ c ≤ 'F' then c.toNat - 55
    else radix
  if d < radix then some d else none

/-- Whether `c` is a digit to the base `radix`. -/
def isDigit (radix : Nat) (c : Char) : Bool :=
  (digit? radix c).isSome

/-- The value of a row of digits; other characters count as zero. -/
def value (radix : Nat) (digits : List Char) : Nat :=
  digits.foldl (fun acc c => acc * radix + (digit? radix c).getD 0) 0

/-- The number that all of `chars` spell, digits only and at least one. -/
def number? (radix : Nat) (chars : List Char) : Option Nat :=
  if chars ≠ [] ∧ chars.all (isDigit radix) then some (value radix chars) else none

/-- A decimal number of at most `bound`, with any leading zeros and at most one plus sign before
it. -/
def bounded? (bound : Nat) (text : String) : Option Nat :=
  let digits :=
    match text.toList with
    | '+' :: rest => rest
    | chars => chars
  (number? 10 digits).filter (· ≤ bound)

theorem value_append_singleton (radix : Nat) (digits : List Char) (c : Char) :
    value radix (digits ++ [c]) = value radix digits * radix + (digit? radix c).getD 0 := by
  simp [value]

end PeerCensus.Numeral
