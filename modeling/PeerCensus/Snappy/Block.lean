import PeerCensus.Wire.Varint

/-!
# Snappy blocks

A block is the length of its data as a varint, followed by elements: bytes that stand for
themselves, and copies of bytes that came before. This module holds the elements, their written
form, and the reader of blocks. `Snappy.Matcher` finds the elements for given data.

Results:
* `Element.length_readAfter`: reading an element leaves no more than there was.
-/

namespace PeerCensus.Snappy

/-- A part of a block. -/
inductive Element
  /-- Bytes that stand for themselves. -/
  | literal (bytes : Bytes)
  /-- The `length` bytes that begin `offset` bytes back; they may reach into the copy itself. -/
  | copy (offset length : Nat)
  deriving DecidableEq, Repr

namespace Element

/-- How many bytes are needed for `n`, at most four. -/
def lengthBytes (n : Nat) : Nat :=
  if n < 0x100 then 1 else if n < 0x10000 then 2 else if n < 0x1000000 then 3 else 4

/-- The written form of an element. A short copy from nearby takes two bytes, any other three. -/
def encode : Element → Bytes
  | literal bytes =>
    let n := bytes.length - 1
    if n < 60 then (4 * n).toUInt8 :: bytes
    else (4 * (59 + lengthBytes n)).toUInt8 :: Bytes.ofNatLE (lengthBytes n) n ++ bytes
  | copy offset length =>
    if length < 12 ∧ offset < 2048 then
      [(offset / 256 * 32 + (length - 4) * 4 + 1).toUInt8, offset.toUInt8]
    else ((length - 1) * 4 + 2).toUInt8 :: Bytes.ofNatLE 2 offset

/-- Takes exactly `n` bytes. -/
def takeExactly (n : Nat) (bytes : Bytes) : Option (Bytes × Bytes) :=
  let taken := bytes.take n
  if taken.length = n then some (taken, bytes.drop n) else none

/-- Reads the element whose first byte is `tag`. The length of a literal stands in the tag, or in one
to four bytes after it. -/
def readAfter (tag : UInt8) (rest : Bytes) : Option (Element × Bytes) :=
  let n := tag.toNat / 4
  if tag.toNat % 4 = 0 then
    if n < 60 then do
      let (bytes, rest) ← takeExactly (n + 1) rest
      return (literal bytes, rest)
    else do
      let (size, rest) ← takeExactly (n - 59) rest
      let (bytes, rest) ← takeExactly (Bytes.toNatLE size + 1) rest
      return (literal bytes, rest)
  else if tag.toNat % 4 = 1 then do
    let (low, rest) ← takeExactly 1 rest
    return (copy (n / 8 * 256 + Bytes.toNatLE low) (n % 8 + 4), rest)
  else do
    let (offset, rest) ← takeExactly (if tag.toNat % 4 = 2 then 2 else 4) rest
    return (copy (Bytes.toNatLE offset) (n + 1), rest)

theorem length_takeExactly {n : Nat} {bytes taken left : Bytes}
    (h : takeExactly n bytes = some (taken, left)) : left.length ≤ bytes.length := by
  simp only [takeExactly, Option.ite_none_right_eq_some, Option.some.injEq, Prod.mk.injEq] at h
  simp [← h.2.2]

/-- Reading an element leaves no more than there was. -/
theorem length_readAfter {tag : UInt8} {rest left : Bytes} {e : Element}
    (h : readAfter tag rest = some (e, left)) : left.length ≤ rest.length := by
  simp only [readAfter] at h
  split at h
  · split at h
    · obtain ⟨⟨a, b⟩, ha, hb⟩ := Option.bind_eq_some_iff.1 h
      cases hb
      exact length_takeExactly ha
    · obtain ⟨⟨a, b⟩, ha, hb⟩ := Option.bind_eq_some_iff.1 h
      obtain ⟨⟨c, d⟩, hc, hd⟩ := Option.bind_eq_some_iff.1 hb
      cases hd
      exact Nat.le_trans (length_takeExactly hc) (length_takeExactly ha)
  · split at h
    · obtain ⟨⟨a, b⟩, ha, hb⟩ := Option.bind_eq_some_iff.1 h
      cases hb
      exact length_takeExactly ha
    · obtain ⟨⟨a, b⟩, ha, hb⟩ := Option.bind_eq_some_iff.1 h
      cases hb
      exact length_takeExactly ha

end Element

/-- Appends `length` bytes to `out`, each the byte `offset` places before it. -/
def copyBack (offset : Nat) : Nat → Array UInt8 → Array UInt8
  | 0, out => out
  | length + 1, out => copyBack offset length (out.push (out.getD (out.size - offset) 0))

/-- The data `out` with what an element stands for after it; `none` for a copy that reaches back
beyond the first byte. -/
def Element.apply (out : Array UInt8) : Element → Option (Array UInt8)
  | literal bytes => some (out ++ bytes.toArray)
  | copy offset length =>
    if offset = 0 ∨ out.size < offset then none else some (copyBack offset length out)

/-- Reads elements to the end of `bytes` and appends what they stand for to `out`, never beyond
`size` bytes. -/
def expand (size : Nat) (out : Array UInt8) : Bytes → Option (Array UInt8)
  | [] => some out
  | tag :: rest =>
    match _read : Element.readAfter tag rest with
    | none => none
    | some (element, left) =>
      match element.apply out with
      | none => none
      | some out => if size < out.size then none else expand size out left
termination_by bytes => bytes.length
decreasing_by exact Nat.lt_succ_of_le (Element.length_readAfter _read)

namespace Block

/-- The largest length a block may claim. -/
def maxLength : Nat := 0xffffffff

/-- The most bytes in which the length is written. -/
def lengthSize : Nat := 5

/-- Reads a varint of at most `lengthSize` bytes, the first `index` of which stand for `value`. -/
def readLengthFrom (index value : Nat) : Bytes → Option (Nat × Bytes)
  | [] => none
  | b :: rest =>
    if lengthSize ≤ index then none
    else
      let value := value + b.toNat % 128 * Nat.pow 128 index
      if b.toNat < 128 then some (value, rest) else readLengthFrom (index + 1) value rest

/-- The length a block claims for its data, and what follows it. -/
def readLength (block : Bytes) : Option (Nat × Bytes) :=
  (readLengthFrom 0 0 block).filter fun r => r.1 ≤ maxLength

/-- The length that a block claims; an empty block claims none. -/
def claimedLength (block : Bytes) : Option Nat :=
  if block = [] then some 0 else (readLength block).map (·.1)

/-- The data of a block. Its elements have to make up exactly the claimed length. -/
def decode (block : Bytes) : Option Bytes := do
  let (size, rest) ← readLength block
  let out ← expand size #[] rest
  if out.size = size then return out.toList else none

end Block

end PeerCensus.Snappy
