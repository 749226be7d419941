import PeerCensus.Bytes

/-!
# Base58

Byte strings as numbers to the base 58 with the alphabet that leaves out the characters that look
alike; every zero byte at the front is a `1`.
-/

namespace PeerCensus.Base58

/-- The fifty-eight digits in order. -/
def alphabet : List Char :=
  "123456789ABCDEFGHJKLMNPQRSTUVWXYZabcdefghijkmnopqrstuvwxyz".toList

/-- The digit of a number below 58. -/
def digit (n : Nat) : Char :=
  alphabet.getD n '1'

/-- The digits of `n` to the base 58, the least significant first; none for zero. -/
def digits (n : Nat) : List Nat :=
  if n = 0 then [] else n % 58 :: digits (n / 58)
termination_by n

/-- The text of `bytes`. -/
def encode (bytes : Bytes) : String :=
  let zeros := (bytes.takeWhile (· == 0)).length
  String.ofList (List.replicate zeros '1' ++ ((digits (Bytes.toNatBE bytes)).map digit).reverse)

/-- The bytes of `n` without zeros at the front. -/
def toBytes (n : Nat) : Bytes :=
  if n = 0 then [] else toBytes (n / 256) ++ [n.toUInt8]
termination_by n

/-- The bytes of a text; none if it has a character that is not a digit. -/
def decode (text : String) : Option Bytes := do
  let chars := text.toList
  let values ← chars.mapM fun c => alphabet.idxOf? c
  let n := values.foldl (fun acc d => acc * 58 + d) 0
  let zeros := (chars.takeWhile (· == '1')).length
  return List.replicate zeros 0 ++ toBytes n

end PeerCensus.Base58
