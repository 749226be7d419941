import PeerCensus.Net.PeerId

/-!
# Multihashes

A hash function's code, the digest's size and the digest; code and size are varints in their
shortest form. A peer id is well formed when it is the base58 text of a multihash that either holds
the key itself in at most 42 bytes or is a SHA-256 digest.
-/

namespace PeerCensus

/-- A digest and the code of the function that made it. -/
structure Multihash where
  code : Nat
  digest : Bytes
  deriving DecidableEq

namespace Multihash

/-- The code for data that stands for itself. -/
def identityCode : Nat := 0x00

/-- The code of SHA-256. -/
def sha256Code : Nat := 0x12

/-- The largest digest. -/
def maxDigest : Nat := 64

/-- The longest key that is its own digest. -/
def maxInlineKey : Nat := 42

/-- Reads a varint of at most ten bytes, the value so far being `value`; bits past the 64th are
dropped, and a longer form than needed is refused. -/
def readVarintFrom (index value : Nat) : Bytes → Option (Nat × Bytes)
  | [] => none
  | b :: rest =>
    let value := (value + b.toNat % 128 * Nat.pow 128 index) % 0x10000000000000000
    if b.toNat < 128 then
      if b = 0 ∧ 0 < index then none else some (value, rest)
    else if index = 9 then none
    else readVarintFrom (index + 1) value rest

/-- Reads a varint off the front of `bytes`. -/
def readVarint (bytes : Bytes) : Option (Nat × Bytes) :=
  readVarintFrom 0 0 bytes

/-- A varint in its shortest form. -/
def writeVarint (n : Nat) : Bytes :=
  if n < 128 then [n.toUInt8] else (n % 128 + 128).toUInt8 :: writeVarint (n / 128)
termination_by n

/-- The multihash that all of `bytes` are. -/
def decode (bytes : Bytes) : Option Multihash := do
  let (code, rest) ← readVarint bytes
  let (size, digest) ← readVarint rest
  if maxDigest < size ∨ digest.length ≠ size then none
  return ⟨code, digest⟩

/-- The bytes of a multihash. -/
def encode (m : Multihash) : Bytes :=
  writeVarint m.code ++ writeVarint m.digest.length ++ m.digest

/-- Whether the multihash names a peer. -/
def namesPeer (m : Multihash) : Bool :=
  m.code == sha256Code || (m.code == identityCode && m.digest.length ≤ maxInlineKey)

/-- The canonical form of a peer id, if it is well formed. -/
def canonical? (id : PeerId) : Option PeerId := do
  let m ← decode (← Base58.decode id.text)
  if m.namesPeer then return ⟨Base58.encode m.encode⟩ else none

end Multihash

end PeerCensus
