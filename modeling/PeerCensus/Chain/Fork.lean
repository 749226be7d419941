import PeerCensus.Text.Blank
import PeerCensus.Text.Hex
import PeerCensus.Text.Quoted
import PeerCensus.Text.Split
import PeerCensus.Wire.Ssz

/-!
# Forks

Fork digests and fork versions, both four bytes written in hexadecimal after `0x`, and the
`ForkId` that a node advertises. Read from text, white space around the digits and one `0x` before
them are ignored; a list of digests separates them by commas and may have blank items.
-/

namespace PeerCensus

/-- A text that is not a hexadecimal value of the right size. -/
structure HexError where
  /-- The text as it was given. -/
  input : String
  deriving DecidableEq

/-- The text shown for the error. -/
def HexError.message (e : HexError) : String :=
  "invalid hex value: " ++ Text.quote e.input

namespace Hex

/-- `chars` without one `0x` in front. -/
def dropMarker : List Char → List Char
  | '0' :: 'x' :: rest => rest
  | chars => chars

/-- The `n` bytes that a text spells, with white space around it and `0x` in front allowed. Model of
`parse_hex_array`. -/
def parseFixed (n : Nat) (text : String) : Except HexError (FixedBytes n) :=
  match (decodeChars (dropMarker (Text.trimChars text.toList))).bind (FixedBytes.ofList? n) with
  | some bytes => .ok bytes
  | none => .error ⟨text⟩

/-- `bytes` in hexadecimal after `0x`. -/
def encodeMarked (bytes : Bytes) : String :=
  "0x" ++ encode bytes

end Hex

/-- The short name of the fork a node follows. -/
structure ForkDigest where
  bytes : FixedBytes 4
  deriving DecidableEq, Hashable, Inhabited

/-- The version of a fork. -/
structure ForkVersion where
  bytes : FixedBytes 4
  deriving DecidableEq, Inhabited

/-- The root of a block or a state. -/
structure Root where
  bytes : FixedBytes 32
  deriving DecidableEq, Inhabited

/-- The fork a node is on and the next one it knows of. -/
structure ForkId where
  digest : ForkDigest
  nextVersion : ForkVersion
  nextEpoch : UInt64
  deriving DecidableEq, Inhabited

instance : Ssz ForkDigest where
  size := 4
  encode d := d.bytes.toList
  read := do return ⟨← Ssz.take 4⟩

instance : Ssz ForkVersion where
  size := 4
  encode v := v.bytes.toList
  read := do return ⟨← Ssz.take 4⟩

instance : Ssz Root where
  size := 32
  encode r := r.bytes.toList
  read := do return ⟨← Ssz.take 32⟩

instance : Ssz ForkId where
  size := 16
  encode f := Ssz.encode f.digest ++ Ssz.encode f.nextVersion ++ Ssz.encode f.nextEpoch
  read := do return ⟨← Ssz.read, ← Ssz.read, ← Ssz.read⟩

namespace ForkDigest

/-- The text of a digest. -/
def render (d : ForkDigest) : String :=
  Hex.encodeMarked d.bytes.toList

/-- The digest a text spells. -/
def parse (text : String) : Except HexError ForkDigest :=
  (Hex.parseFixed 4 text).map ForkDigest.mk

/-- The digests of a list separated by commas. Blank items are passed over; the first item that is
not a digest is the error. Model of `parse_fork_digests`. -/
def parseList (text : String) : Except HexError (List ForkDigest) :=
  (((Text.split ',' text).map Text.trim).filter (· ≠ "")).mapM parse

/-- Whether `a` comes before `b` or is `b` in the order of their bytes. -/
def le (a b : ForkDigest) : Bool :=
  Bytes.toNatBE a.bytes.toList ≤ Bytes.toNatBE b.bytes.toList

end ForkDigest

namespace ForkVersion

/-- The text of a version. -/
def render (v : ForkVersion) : String :=
  Hex.encodeMarked v.bytes.toList

/-- The version a text spells. -/
def parse (text : String) : Except HexError ForkVersion :=
  (Hex.parseFixed 4 text).map ForkVersion.mk

end ForkVersion

/-- The text of a root. -/
def Root.render (r : Root) : String :=
  Hex.encodeMarked r.bytes.toList

/-- The text of a fork id. -/
def ForkId.render (f : ForkId) : String :=
  "digest: " ++ f.digest.render ++ ", next fork version: " ++ f.nextVersion.render ++
    ", next fork epoch: " ++ toString f.nextEpoch.toNat

end PeerCensus
