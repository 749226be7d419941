import PeerCensus.Bytes

/-!
# Hexadecimal text

Bytes as two hexadecimal digits each, written in lower case and read in either case. Nothing but
digits is read, and they have to come in pairs.

Results:
* `decode_encode`: reading what was written gives the bytes back.
-/

namespace PeerCensus.Hex

/-- The digit of a number below sixteen, in lower case. -/
def digit (n : Nat) : Char :=
  if n < 10 then Char.ofNat (48 + n) else Char.ofNat (87 + n)

/-- The value of a hexadecimal digit of either case. -/
def digitValue? (c : Char) : Option Nat :=
  if '0' ≤ c ∧ c ≤ '9' then some (c.toNat - 48)
  else if 'a' ≤ c ∧ c ≤ 'f' then some (c.toNat - 87)
  else if 'A' ≤ c ∧ c ≤ 'F' then some (c.toNat - 55)
  else none

/-- Two digits for each byte, the high one first. -/
def encodeChars (bytes : Bytes) : List Char :=
  bytes.flatMap fun b => [digit (b.toNat / 16), digit (b.toNat % 16)]

/-- The lower-case hexadecimal text of `bytes`. -/
def encode (bytes : Bytes) : String :=
  String.ofList (encodeChars bytes)

/-- Reads digits in pairs; `none` on any other character and on a digit left over. -/
def decodeChars : List Char → Option Bytes
  | [] => some []
  | [_] => none
  | hi :: lo :: rest => do
    let h ← digitValue? hi
    let l ← digitValue? lo
    let bytes ← decodeChars rest
    return (16 * h + l).toUInt8 :: bytes

/-- The bytes of a hexadecimal text. -/
def decode (text : String) : Option Bytes :=
  decodeChars text.toList

theorem digitValue?_digit : ∀ n < 16, digitValue? (digit n) = some n := by
  decide

theorem decodeChars_encodeChars (bytes : Bytes) : decodeChars (encodeChars bytes) = some bytes := by
  induction bytes with
  | nil => rfl
  | cons b rest ih =>
    have high : b.toNat / 16 < 16 := by have := b.toNat_lt; omega
    have low : b.toNat % 16 < 16 := by omega
    have join : (16 * (b.toNat / 16) + b.toNat % 16).toUInt8 = b := by
      rw [Nat.div_add_mod]; simp
    simp only [encodeChars, List.flatMap_cons, List.cons_append, List.nil_append] at ih ⊢
    rw [decodeChars, digitValue?_digit _ high, digitValue?_digit _ low, ih]
    exact congrArg (fun x => some (x :: rest)) join

theorem decode_encode (bytes : Bytes) : decode (encode bytes) = some bytes := by
  simp [decode, encode, decodeChars_encodeChars]

end PeerCensus.Hex
