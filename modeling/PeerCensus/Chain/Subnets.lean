import PeerCensus.Text.Hex
import PeerCensus.Wire.Ssz

/-!
# Attestation subnets

The set of the 64 attestation subnets that a node subscribes to, one bit each, the lowest bit of the
first byte for subnet 0.
-/

namespace PeerCensus

/-- A set of attestation subnets. -/
structure Subnets where
  bytes : FixedBytes 8
  deriving DecidableEq, Inhabited

instance : Ssz Subnets where
  size := 8
  encode s := s.bytes.toList
  read := do return ⟨← Ssz.take 8⟩

namespace Subnets

/-- The number of subnets there are. -/
def total : Nat := 64

/-- No subnet. -/
def empty : Subnets := ⟨.zeros 8⟩

/-- Whether `subnet` is in the set; there is none from 64 on. Model of `is_set`. -/
def contains (s : Subnets) (subnet : Nat) : Bool :=
  subnet < total && (s.bytes.toList.getD (subnet / 8) 0).toNat.testBit (subnet % 8)

/-- How many subnets are in the set. Model of `count`. -/
def size (s : Subnets) : Nat :=
  ((List.range total).filter s.contains).length

/-- The bits in hexadecimal. -/
def render (s : Subnets) : String :=
  Hex.encode s.bytes.toList

end Subnets

end PeerCensus
