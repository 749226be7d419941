import PeerCensus.Bytes

/-!
# CRC-32C

The cyclic redundancy check with the Castagnoli polynomial, bits taken low first, and its masked
form, which a snappy frame carries: rotated right by fifteen bits, plus a constant.
-/

namespace PeerCensus.Crc32c

/-- The reversed Castagnoli polynomial. -/
def polynomial : UInt32 := 0x82f63b78

/-- Moves the remainder on by one bit. -/
def shift (r : UInt32) : UInt32 :=
  if r &&& 1 == 1 then (r >>> 1) ^^^ polynomial else r >>> 1

/-- Moves the remainder on by eight bits. -/
def shiftByte (r : UInt32) : UInt32 :=
  shift (shift (shift (shift (shift (shift (shift (shift r)))))))

/-- The eight shifts of every remainder below 256. -/
def table : Array UInt32 :=
  Array.ofFn fun i : Fin 256 => shiftByte i.val.toUInt32

/-- Takes one more byte into the remainder. -/
def step (r : UInt32) (b : UInt8) : UInt32 :=
  table.getD ((r ^^^ b.toUInt32) &&& 0xff).toNat 0 ^^^ (r >>> 8)

/-- The checksum of `data`. -/
def checksum (data : Bytes) : UInt32 :=
  data.foldl step 0xffffffff ^^^ 0xffffffff

/-- The checksum of `data` as a frame carries it. -/
def masked (data : Bytes) : UInt32 :=
  let c := checksum data
  ((c >>> 15) ||| (c <<< 17)) + 0xa282ead8

end PeerCensus.Crc32c
