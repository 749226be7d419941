import PeerCensus.Bytes

/-!
# Recursive length prefixes

An item is a string of bytes or a list of items. It starts with a head that tells which of them it
is and how long it is; a byte below `0x80` is its own item. Only the shortest form is read.

Results:
* `length_readItem`: reading an item leaves less than there was.
-/

namespace PeerCensus.Rlp

/-- What the head of an item tells. -/
structure Head where
  isList : Bool
  /-- The length of what follows the head. -/
  length : Nat
  deriving DecidableEq, Repr

/-- Reads a length of `size` bytes; it has no leading zero and is needed, being at least 56. -/
def readLength (size : Nat) (bytes : Bytes) : Option (Nat × Bytes) :=
  let length := Bytes.toNatBE (bytes.take size)
  if bytes.length < size ∨ bytes.head? = some 0 ∨ length < 56 then none
  else some (length, bytes.drop size)

/-- Reads the head of an item and leaves what follows it. The single byte that is its own item
counts as following a head of no bytes. -/
def readHead : Bytes → Option (Head × Bytes)
  | [] => none
  | b :: rest =>
    let n := b.toNat
    if n < 0x80 then some (⟨false, 1⟩, b :: rest)
    else if n < 0xb8 then some (⟨false, n - 0x80⟩, rest)
    else if n < 0xc0 then do
      let (length, rest) ← readLength (n - 0xb7) rest
      return (⟨false, length⟩, rest)
    else if n < 0xf8 then some (⟨true, n - 0xc0⟩, rest)
    else do
      let (length, rest) ← readLength (n - 0xf7) rest
      return (⟨true, length⟩, rest)

/-- Whether a head stands before a byte that is its own item. -/
def isRedundant (bytes rest : Bytes) : Bool :=
  bytes.head? == some 0x81 && rest.head?.all fun b => b < 0x80

/-- Reads an item: whether it is a list, what follows its head, and what follows the item. -/
def readItem (bytes : Bytes) : Option (Bool × Bytes × Bytes) := do
  let (head, rest) ← readHead bytes
  if isRedundant bytes rest ∨ rest.length < head.length then none
  return (head.isList, rest.take head.length, rest.drop head.length)

/-- Reads a string. -/
def readString (bytes : Bytes) : Option (Bytes × Bytes) := do
  let (isList, content, rest) ← readItem bytes
  if isList then none else some (content, rest)

/-- The string that all of an item is. -/
def string? (item : Bytes) : Option Bytes :=
  (readString item).map (·.1)

/-- The number written in `content` with as few bytes as possible, at most `size`. Zero needs none. -/
def number? (size : Nat) (content : Bytes) : Option Nat :=
  if size < content.length ∨ content.head? = some 0 then none else some (Bytes.toNatBE content)

/-- The fewest bytes of `n`, the most significant first; none for zero. -/
def digits (n : Nat) : Bytes :=
  if n = 0 then [] else digits (n / 256) ++ [n.toUInt8]

/-- The head of a list with `length` bytes of items. -/
def listHead (length : Nat) : Bytes :=
  if length < 56 then [(0xc0 + length).toUInt8]
  else (0xf7 + (digits length).length).toUInt8 :: digits length

theorem length_readLength {size length : Nat} {bytes rest : Bytes}
    (h : readLength size bytes = some (length, rest)) : rest.length ≤ bytes.length := by
  simp only [readLength] at h
  split at h
  · cases h
  · cases h; simp

theorem length_readHead {bytes rest : Bytes} {head : Head} (h : readHead bytes = some (head, rest)) :
    rest.length < bytes.length ∨ (rest.length = bytes.length ∧ head.length = 1) := by
  cases bytes with
  | nil => cases h
  | cons b tail =>
    simp only [readHead] at h
    split at h
    · cases h; exact .inr ⟨rfl, rfl⟩
    · split at h
      · cases h; exact .inl (by simp)
      · split at h
        · simp only [bind, Option.bind_eq_some_iff] at h
          obtain ⟨⟨length, left⟩, hl, h⟩ := h
          cases h
          exact .inl (Nat.lt_succ_of_le (length_readLength hl))
        · split at h
          · cases h; exact .inl (by simp)
          · simp only [bind, Option.bind_eq_some_iff] at h
            obtain ⟨⟨length, left⟩, hl, h⟩ := h
            cases h
            exact .inl (Nat.lt_succ_of_le (length_readLength hl))

theorem length_readItem {bytes content rest : Bytes} {isList : Bool}
    (h : readItem bytes = some (isList, content, rest)) : rest.length < bytes.length := by
  simp only [readItem, bind, Option.bind_eq_some_iff] at h
  obtain ⟨⟨head, left⟩, hh, h⟩ := h
  split at h
  · cases h
  · rename_i hn
    cases h
    have := length_readHead hh
    simp only [not_or, Nat.not_lt] at hn
    simp only [List.length_drop]
    omega

end PeerCensus.Rlp
