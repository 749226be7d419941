import PeerCensus.Text.Numeral
import PeerCensus.Toml.Scan

/-!
# Numbers of a document

Integers of 64 bits with a sign, written to the base ten, sixteen, eight or two, and numbers with a
point or an exponent. The latter have to fit into 64 bits where they are positive; a negative one
that is too large stands for minus infinity. Single underscores may stand between digits, and
leading zeros only before digits of a fraction, of an exponent or to another base than ten.
-/

namespace PeerCensus.Toml.Scan

/-- Reads digits to the base `radix`, with single underscores between them. -/
def digits (radix : Nat) : Scan (List Char) := do
  let digit := satisfying (Numeral.isDigit radix)
  return (← digit) :: (← many (digit <|> char '_' *> digit))

/-- Reads a sign, if there is one, and tells whether it is a minus. -/
def sign : Scan Bool :=
  (do char '-'; return true) <|> (do char '+'; return false) <|> pure false

/-- Reads decimal digits without a leading zero, or a zero. -/
def plainDigits : Scan (List Char) :=
  (do ahead (satisfying fun c => '1' ≤ c && c ≤ '9'); digits 10) <|>
    (do return [← satisfying (Numeral.isDigit 10)])

/-- The integer, if it has at most 64 bits with its sign. -/
def bounded (n : Int) : Scan Int :=
  if -9223372036854775808 ≤ n ∧ n < 9223372036854775808 then return n else failure

/-- Reads digits to the base `radix` after the mark of that base. -/
def marked (mark : String) (radix : Nat) : Scan Int := do
  word mark
  bounded (Numeral.value radix (← digits radix))

/-- Reads an integer. -/
def integer : Scan Int :=
  marked "0x" 16 <|> marked "0o" 8 <|> marked "0b" 2 <|> do
    let negative ← sign
    let n : Int := Numeral.value 10 (← plainDigits)
    bounded (if negative then -n else n)

/-- The smallest number that is too large for a number of 64 bits with a point: half a unit past the
largest one. -/
def floatBound : Nat := Nat.pow 2 1024 - Nat.pow 2 970

/-- Whether `mantissa * 10 ^ exponent` is smaller than `floatBound`, which has 309 digits. -/
def fits (mantissa : Nat) (exponent : Int) : Bool :=
  let size := (Nat.toDigits 10 mantissa).length + exponent
  mantissa == 0 || size < 309 ||
    (size == 309 && mantissa * Nat.pow 10 exponent.toNat < floatBound * Nat.pow 10 (-exponent).toNat)

/-- Reads an exponent. -/
def exponent : Scan Int := do
  char 'e' <|> char 'E'
  let negative ← sign
  let n : Int := Numeral.value 10 (← digits 10)
  return if negative then -n else n

/-- Reads a number with a point, an exponent or both. -/
def float : Scan Unit := do
  let negative ← sign
  word "inf" <|> word "nan" <|> do
    let mantissa ← plainDigits
    let fraction ← optional (char '.' *> digits 10)
    let power ← optional exponent
    if fraction.isNone ∧ power.isNone then failure
    let fraction := (fraction.getD []).filter (· != '_')
    if negative ∨ fits (Numeral.value 10 (mantissa ++ fraction)) (power.getD 0 - fraction.length)
    then return
    else failure

end PeerCensus.Toml.Scan
