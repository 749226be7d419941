import PeerCensus.Text.Numeral
import PeerCensus.Toml.Scan

/-!
# Moments of a document

A date, a time of day, or both with or without the distance to universal time.
-/

namespace PeerCensus.Toml.Scan

/-- How many days the month has in the year. A leap year comes every fourth year, except for three
centuries out of four. -/
def daysIn (year month : Nat) : Nat :=
  if month = 2 then if year % 4 = 0 ∧ (year % 100 ≠ 0 ∨ year % 400 = 0) then 29 else 28
  else if month = 4 ∨ month = 6 ∨ month = 9 ∨ month = 11 then 30
  else 31

/-- Reads a number of exactly `size` digits that is between `low` and `high`. -/
def ranged (size low high : Nat) : Scan Nat := do
  let n := Numeral.value 10 (← times (satisfying (Numeral.isDigit 10)) size)
  if low ≤ n ∧ n ≤ high then return n else failure

/-- Reads a date. -/
def date : Scan Unit := do
  let year ← ranged 4 0 9999
  char '-'
  let month ← ranged 2 1 12
  char '-'
  let _ ← ranged 2 1 (daysIn year month)

/-- Reads hours and minutes. -/
def hoursAndMinutes : Scan Unit := do
  let _ ← ranged 2 0 23
  char ':'
  let _ ← ranged 2 0 59

/-- Reads a time of day. A minute may have a leap second. -/
def time : Scan Unit := do
  hoursAndMinutes
  char ':'
  let _ ← ranged 2 0 60
  let _ ← optional (char '.' *> many1 (satisfying (Numeral.isDigit 10)))

/-- Reads the distance to universal time. -/
def offset : Scan Unit :=
  char 'Z' <|> char 'z' <|> (char '+' <|> char '-') *> hoursAndMinutes

/-- Reads a time of day and the distance to universal time, if it is there, after a date. -/
def timeOfDate : Scan Unit := do
  char 'T' <|> char 't' <|> char ' '
  time
  let _ ← optional offset

/-- Reads a date, a date with a time of day, or a time of day. -/
def moment : Scan Unit :=
  (do date; let _ ← optional timeOfDate) <|> time

end PeerCensus.Toml.Scan
