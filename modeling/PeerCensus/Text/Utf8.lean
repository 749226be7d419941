import PeerCensus.Bytes

/-!
# UTF-8 from outside

Bytes that should be UTF-8 but need not be. Where they are not, the longest start of a character
that is found is one fault, and so is every byte that cannot start one.

Results:
* `length_follow`: the bytes of a character are not read twice.
-/

namespace PeerCensus.Utf8

/-- Takes `count` more bytes of a character, the first of them between `low` and `high` and the
others any continuation bytes. `value` is the value of the bits so far. Gives the value of all bits,
or `none` when a byte does not fit, and the bytes from there on. -/
def follow : Nat → Nat → Nat → Nat → Bytes → Option Nat × Bytes
  | 0, _, _, value, bytes => (some value, bytes)
  | _ + 1, _, _, _, [] => (none, [])
  | count + 1, low, high, value, b :: rest =>
    if low ≤ b.toNat ∧ b.toNat ≤ high then
      follow count 0x80 0xbf (64 * value + b.toNat % 64) rest
    else (none, b :: rest)

theorem length_follow (count low high value : Nat) (bytes : Bytes) :
    (follow count low high value bytes).2.length ≤ bytes.length := by
  fun_induction follow count low high value bytes <;> simp_all
  omega

/-- Reads the character whose first byte is `b`, or as much of one as there is. -/
def first (b : Nat) (rest : Bytes) : Option Nat × Bytes :=
  if b < 0x80 then (some b, rest)
  else if b < 0xc2 then (none, rest)
  else if b < 0xe0 then follow 1 0x80 0xbf (b % 32) rest
  else if b = 0xe0 then follow 2 0xa0 0xbf 0 rest
  else if b = 0xed then follow 2 0x80 0x9f 13 rest
  else if b < 0xf0 then follow 2 0x80 0xbf (b % 16) rest
  else if b = 0xf0 then follow 3 0x90 0xbf 0 rest
  else if b < 0xf4 then follow 3 0x80 0xbf (b % 8) rest
  else if b = 0xf4 then follow 3 0x80 0x8f 4 rest
  else (none, rest)

theorem length_first (b : Nat) (rest : Bytes) : (first b rest).2.length ≤ rest.length := by
  unfold first
  repeat' split
  all_goals first | exact Nat.le_refl _ | exact length_follow ..

/-- The characters of `bytes`, with `none` for every fault. -/
def scan : Bytes → List (Option Char)
  | [] => []
  | b :: rest => (first b.toNat rest).1.map Char.ofNat :: scan (first b.toNat rest).2
termination_by bytes => bytes.length
decreasing_by have := length_first b.toNat rest; simp; omega

/-- The text of `bytes`, with the replacement character for every fault. -/
def decodeLossy (bytes : Bytes) : String :=
  String.ofList ((scan bytes).map fun c => c.getD '\ufffd')

/-- The text of `bytes`, if they are UTF-8. -/
def decode (bytes : Bytes) : Option String :=
  ((scan bytes).mapM id).map String.ofList

end PeerCensus.Utf8
