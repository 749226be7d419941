import PeerCensus.Bytes

/-!
# Keccak-256

The sponge over twenty-five lanes of 64 bits with a rate of 136 bytes, padded with a single `1` bit
at either end, and an output of 32 bytes.

Results:
* `length_digestBytes`: a digest has 32 bytes.
-/

namespace PeerCensus.Keccak

/-- Twenty-five lanes; the one at column `x` and row `y` has the index `x + 5 * y`. -/
abbrev Lanes := Array UInt64

/-- How far each lane is rotated. -/
def rotations : Array Nat :=
  #[0, 1, 62, 28, 27, 36, 44, 6, 55, 20, 3, 10, 43, 25, 39, 41, 45, 15, 21, 8, 18, 2, 61, 56, 14]

/-- The constant mixed into the first lane in each round. -/
def roundConstants : List UInt64 :=
  [0x0000000000000001, 0x0000000000008082, 0x800000000000808a, 0x8000000080008000,
    0x000000000000808b, 0x0000000080000001, 0x8000000080008081, 0x8000000000008009,
    0x000000000000008a, 0x0000000000000088, 0x0000000080008009, 0x000000008000000a,
    0x000000008000808b, 0x800000000000008b, 0x8000000000008089, 0x8000000000008003,
    0x8000000000008002, 0x8000000000000080, 0x000000000000800a, 0x800000008000000a,
    0x8000000080008081, 0x8000000000008080, 0x0000000080000001, 0x8000000080008008]

/-- The lane at index `i`. -/
def lane (a : Lanes) (i : Nat) : UInt64 :=
  a.getD i 0

/-- `w` rotated left by `k` bits. -/
def rotate (w : UInt64) (k : Nat) : UInt64 :=
  if k % 64 = 0 then w else (w <<< (k % 64).toUInt64) ||| (w >>> (64 - k % 64).toUInt64)

/-- The lanes whose value at index `i` is `f i`. -/
def tabulate (f : Nat → UInt64) : Lanes :=
  Array.ofFn (fun i : Fin 25 => f i)

/-- Adds to every lane the parities of two neighbouring columns. -/
def mixColumns (a : Lanes) : Lanes :=
  let column := fun x => (List.range 5).foldl (fun acc y => acc ^^^ lane a (x + 5 * y)) 0
  let parity := (Array.ofFn (fun x : Fin 5 => column x) : Lanes)
  let change := (Array.ofFn fun x : Fin 5 =>
    lane parity ((x + 4) % 5) ^^^ rotate (lane parity ((x + 1) % 5)) 1 : Lanes)
  tabulate fun i => lane a i ^^^ lane change (i % 5)

/-- Rotates every lane and moves it to its new place. -/
def moveLanes (a : Lanes) : Lanes :=
  tabulate fun i =>
    let source := (3 * (i / 5) + i % 5) % 5 + 5 * (i % 5)
    rotate (lane a source) (rotations.getD source 0)

/-- Combines every lane with the next two of its row. -/
def mixRows (a : Lanes) : Lanes :=
  tabulate fun i =>
    let row := 5 * (i / 5)
    lane a i ^^^ ((lane a (row + (i + 1) % 5) ^^^ 0xffffffffffffffff) &&& lane a (row + (i + 2) % 5))

/-- One round of the permutation. -/
def round (a : Lanes) (constant : UInt64) : Lanes :=
  (mixRows (moveLanes (mixColumns a))).modify 0 (· ^^^ constant)

/-- The permutation of the lanes. -/
def permute (a : Lanes) : Lanes :=
  roundConstants.foldl round a

/-- The bytes absorbed between two permutations. -/
def rate : Nat := 136

/-- `message` filled up to a multiple of the rate. -/
def pad (message : Bytes) : Bytes :=
  let gap := rate - message.length % rate
  if gap = 1 then message ++ [0x81]
  else message ++ 0x01 :: List.replicate (gap - 2) 0 ++ [0x80]

/-- Adds one block of bytes to the lanes and permutes them. -/
def absorb (a : Lanes) (block : Bytes) : Lanes :=
  let words := ((Bytes.chunks 7 block).map fun w => (Bytes.toNatLE w).toUInt64).toArray
  permute (tabulate fun i => lane a i ^^^ lane words i)

/-- The lanes after all of `message`. -/
def absorbAll (message : Bytes) : Lanes :=
  (Bytes.chunks (rate - 1) (pad message)).foldl absorb (tabulate fun _ => 0)

/-- The bytes of the digest of `message`. -/
def digestBytes (message : Bytes) : Bytes :=
  let a := absorbAll message
  (List.range 4).flatMap fun i => Bytes.ofNatLE 8 (lane a i).toNat

theorem length_digestBytes (message : Bytes) : (digestBytes message).length = 32 := by
  simp [digestBytes, List.range, List.range.loop]

/-- The Keccak-256 digest of `message`. -/
def digest (message : Bytes) : FixedBytes 32 :=
  ⟨digestBytes message, length_digestBytes message⟩

end PeerCensus.Keccak
