import PeerCensus.Bytes

/-!
# Varints

Unsigned LEB128: a number below `2 ^ 64` as groups of seven bits, lowest first, every byte but the
last with its high bit set. At most ten bytes are used; the tenth has room for one bit only.
Longer forms of a small number, padded with zero groups, are read as that number.

Results:
* `encode_ne_nil`: a number takes at least one byte.
* `appendTo_eq`: writing into a buffer leaves what is in it.
-/

namespace PeerCensus.Varint

/-- The most bytes a varint has. -/
def maxLength : Nat := 10

/-- Why bytes are not a varint. -/
inductive Fault
  /-- The bytes end while the varint still goes on. -/
  | truncated
  /-- The number does not fit into 64 bits. -/
  | overflow
  deriving DecidableEq, Repr

/-- The shortest varint of `value`. -/
def encode (value : Nat) : Bytes :=
  if value < 128 then [value.toUInt8]
  else (value % 128 + 128).toUInt8 :: encode (value / 128)
termination_by value

/-- The buffer with the shortest varint of `value` written behind it, byte by byte. -/
def appendTo (buffer : Bytes) (value : Nat) : Bytes :=
  if value < 128 then buffer ++ [value.toUInt8]
  else appendTo (buffer ++ [(value % 128 + 128).toUInt8]) (value / 128)
termination_by value

/-- What one more byte of a varint comes to. -/
inductive Progress
  /-- The varint is complete and has this value. -/
  | complete (value : Nat)
  /-- Another byte is needed; the groups so far have this value. -/
  | more (value : Nat)
  /-- The number does not fit into 64 bits. -/
  | overflow
  deriving DecidableEq, Repr

/-- Takes the byte at `index`, after groups that have the value `value`. -/
def advance (index value : Nat) (b : UInt8) : Progress :=
  if index + 1 = maxLength ∧ 1 < b.toNat then .overflow
  else
    let value := value + b.toNat % 128 * Nat.pow 128 index
    if b.toNat < 128 then .complete value else .more value

/-- Reads on from the byte at `index`; `value` is what the bytes before it stand for. The answer is
the number and how many bytes it has. -/
def decodeFrom (index value : Nat) : Bytes → Except Fault (Nat × Nat)
  | [] => .error .truncated
  | b :: rest =>
    match advance index value b with
    | .complete value => .ok (value, index + 1)
    | .more value => decodeFrom (index + 1) value rest
    | .overflow => .error .overflow

/-- The number at the start of `bytes` and how many bytes it takes. -/
def decode (bytes : Bytes) : Except Fault (Nat × Nat) :=
  decodeFrom 0 0 bytes

theorem encode_ne_nil (value : Nat) : encode value ≠ [] := by
  rw [encode]; split <;> simp

theorem appendTo_eq (buffer : Bytes) (value : Nat) :
    appendTo buffer value = buffer ++ encode value := by
  induction buffer, value using appendTo.induct with
  | case1 buffer value small => rw [appendTo, encode, if_pos small, if_pos small]
  | case2 buffer value large ih =>
    rw [appendTo, encode, if_neg large, if_neg large, ih, List.append_assoc, List.singleton_append]

end PeerCensus.Varint
