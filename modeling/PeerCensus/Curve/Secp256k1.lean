import PeerCensus.Bytes

/-!
# The curve secp256k1

Points of `y ^ 2 = x ^ 3 + 7` over the integers modulo the prime `p`, their encodings, and the
verification of ECDSA signatures. A `PublicKey` is a point in affine coordinates that is on the
curve; there is no key for the point at infinity.

Results:
* `length_compressed`: the compressed encoding has 33 bytes.
-/

namespace PeerCensus.Secp256k1

/-- The prime of the coordinates. -/
def p : Nat := 0xfffffffffffffffffffffffffffffffffffffffffffffffffffffffefffffc2f

/-- The order of the group. -/
def order : Nat := 0xfffffffffffffffffffffffffffffffebaaedce6af48a03bbfd25e8cd0364141

/-- The first coordinate of the base point. -/
def baseX : Nat := 0x79be667ef9dcbbac55a06295ce870b07029bfcdb2dce28d959f2815b16f81798

/-- The second coordinate of the base point. -/
def baseY : Nat := 0x483ada7726a3c4655da4fbfc0e1108a8fd17b448a68554199c47d08ffb10d4b8

/-! ## Arithmetic -/

/-- The 256 bits of `k`, the most significant first. -/
def bits (k : Nat) : List Bool :=
  (List.range 256).reverse.map k.testBit

/-- `a ^ e` modulo `m`, for `e` below `2 ^ 256`. -/
def power (m a e : Nat) : Nat :=
  (bits e).foldl
    (fun acc bit => let square := acc * acc % m; if bit then square * a % m else square) 1

/-- The inverse of `a` modulo the prime `m`. -/
def inverse (m a : Nat) : Nat :=
  power m a (m - 2)

/-- The difference of two numbers below `p`, modulo `p`. -/
def sub (a b : Nat) : Nat :=
  (a + (p - b)) % p

/-- The point `(x / z ^ 2, y / z ^ 3)`, or the point at infinity where `z` is zero. -/
structure Jacobian where
  x : Nat
  y : Nat
  z : Nat

namespace Jacobian

/-- The point at infinity. -/
def infinity : Jacobian := ⟨1, 1, 0⟩

/-- Twice a point. -/
def double (a : Jacobian) : Jacobian :=
  if a.z = 0 ∨ a.y = 0 then infinity
  else
    let yy := a.y * a.y % p
    let s := 4 * a.x * yy % p
    let m := 3 * a.x * a.x % p
    let x := sub (m * m % p) (2 * s % p)
    let y := sub (m * sub s x % p) (8 * yy * yy % p)
    ⟨x, y, 2 * a.y * a.z % p⟩

/-- The sum of two points. -/
def add (a b : Jacobian) : Jacobian :=
  if a.z = 0 then b
  else if b.z = 0 then a
  else
    let aa := a.z * a.z % p
    let bb := b.z * b.z % p
    let u := a.x * bb % p
    let v := b.x * aa % p
    let s := a.y * b.z * bb % p
    let t := b.y * a.z * aa % p
    if u = v then
      if s = t then a.double else infinity
    else
      let h := sub v u
      let r := sub t s
      let hh := h * h % p
      let hhh := h * hh % p
      let w := u * hh % p
      let x := sub (sub (r * r % p) hhh) (2 * w % p)
      let y := sub (r * sub w x % p) (s * hhh % p)
      ⟨x, y, h * a.z * b.z % p⟩

/-- The multiple of a point by `k`, for `k` below `2 ^ 256`. -/
def scale (k : Nat) (a : Jacobian) : Jacobian :=
  (bits k).foldl (fun acc bit => let twice := acc.double; if bit then twice.add a else twice) infinity

/-- The first affine coordinate; none for the point at infinity. -/
def affineX? (a : Jacobian) : Option Nat :=
  if a.z = 0 then none
  else
    let i := inverse p a.z
    some (a.x * (i * i % p) % p)

end Jacobian

end Secp256k1

open Secp256k1

/-- A point on the curve other than the point at infinity. -/
structure PublicKey where
  x : Nat
  y : Nat
  x_lt : x < p
  y_lt : y < p
  on_curve : y * y % p = (x * x * x + 7) % p
  deriving DecidableEq

namespace PublicKey

/-- The key with the given coordinates, if they are those of a point on the curve. -/
def ofCoordinates? (x y : Nat) : Option PublicKey :=
  if h : x < p ∧ y < p ∧ y * y % p = (x * x * x + 7) % p then
    some ⟨x, y, h.1, h.2.1, h.2.2⟩
  else none

/-- The key with the first coordinate `x` whose second one is odd or even as asked. -/
def ofX? (x : Nat) (odd : Bool) : Option PublicKey :=
  let root := power p ((x * x * x + 7) % p) ((p + 1) / 4)
  let y := if (root % 2 == 1) == odd then root else (p - root) % p
  ofCoordinates? x y

/-- The first byte of the compressed encoding: the parity of the second coordinate. -/
def parityTag (key : PublicKey) : UInt8 :=
  if key.y % 2 = 1 then 3 else 2

/-- The compressed encoding: the parity and the first coordinate. -/
def compressed (key : PublicKey) : Bytes :=
  key.parityTag :: Bytes.ofNatBE 32 key.x

/-- Both coordinates. -/
def coordinates (key : PublicKey) : Bytes :=
  Bytes.ofNatBE 32 key.x ++ Bytes.ofNatBE 32 key.y

theorem length_compressed (key : PublicKey) : key.compressed.length = 33 := by
  simp [compressed]

/-- The key of a point encoding: compressed with the tag 2 or 3, uncompressed with the tag 4, or
hybrid with the tag 6 or 7, which repeats the parity. -/
def decode : Bytes → Option PublicKey
  | [] => none
  | tag :: rest =>
    if rest.length = 32 then
      if tag = 2 ∨ tag = 3 then ofX? (Bytes.toNatBE rest) (tag == 3) else none
    else if rest.length = 64 then
      let x := Bytes.toNatBE (rest.take 32)
      let y := Bytes.toNatBE (rest.drop 32)
      if tag = 4 ∨ (tag = 6 ∧ y % 2 = 0) ∨ (tag = 7 ∧ y % 2 = 1) then ofCoordinates? x y else none
    else none

/-- The key of a point encoding as a signed record may carry it: compressed with the tag 2 or 3,
uncompressed with the tag 4, or the first coordinate of an even point alone with the tag 5. -/
def decodeStandard : Bytes → Option PublicKey
  | [] => none
  | tag :: rest =>
    if rest.length = 32 then
      if tag = 2 ∨ tag = 3 ∨ tag = 5 then ofX? (Bytes.toNatBE rest) (tag == 3) else none
    else if rest.length = 64 ∧ tag = 4 then
      ofCoordinates? (Bytes.toNatBE (rest.take 32)) (Bytes.toNatBE (rest.drop 32))
    else none

/-- Whether `signature` is the ECDSA signature of a message with this digest: two numbers of 32
bytes, each from one up to below the order, the second in the lower half. -/
def verifies (key : PublicKey) (digest signature : Bytes) : Bool :=
  let r := Bytes.toNatBE (signature.take 32)
  let s := Bytes.toNatBE (signature.drop 32)
  if signature.length ≠ 64 ∨ r = 0 ∨ order ≤ r ∨ s = 0 ∨ order / 2 < s then false
  else
    let z := Bytes.toNatBE digest % order
    let i := inverse order s
    let u := z * i % order
    let v := r * i % order
    let point := (Jacobian.scale u ⟨baseX, baseY, 1⟩).add (Jacobian.scale v ⟨key.x, key.y, 1⟩)
    match point.affineX? with
    | some x => x % order == r
    | none => false

end PublicKey

end PeerCensus
