/-!
# Byte strings

Byte strings are lists of bytes; a value that must have a fixed size is a `FixedBytes n`.
Numbers are read and written in both byte orders.

Results:
* `length_ofNatLE`, `length_ofNatBE`: a number is written in exactly the asked size.
* `toNatLE_ofNatLE`: reading what was written gives the number modulo `256 ^ n`.
* `ofNatLE_toNatLE`: writing what was read gives the same bytes.
* `toNatBE_ofNatBE_of_lt`, `ofNatBE_toNatBE`: the same with the most significant byte first.
-/

namespace PeerCensus

/-- A string of bytes. -/
abbrev Bytes := List UInt8

namespace Bytes

/-- The number whose digits to base 256 are `bytes`, least significant first. -/
def toNatLE : Bytes → Nat
  | [] => 0
  | b :: rest => b.toNat + 256 * toNatLE rest

/-- The `n` low digits of `value` to base 256, least significant first. -/
def ofNatLE : Nat → Nat → Bytes
  | 0, _ => []
  | n + 1, value => value.toUInt8 :: ofNatLE n (value / 256)

/-- The number whose digits to base 256 are `bytes`, most significant first. -/
def toNatBE (bytes : Bytes) : Nat :=
  bytes.foldl (fun acc b => 256 * acc + b.toNat) 0

/-- The `n` low digits of `value` to base 256, most significant first. -/
def ofNatBE (n value : Nat) : Bytes :=
  (ofNatLE n value).reverse

/-- The bytes of a text in UTF-8. -/
def ofString (text : String) : Bytes :=
  text.toUTF8.toList

@[simp] theorem length_ofNatLE (n value : Nat) : (ofNatLE n value).length = n := by
  induction n generalizing value with
  | zero => rfl
  | succ n ih => simp [ofNatLE, ih]

@[simp] theorem length_ofNatBE (n value : Nat) : (ofNatBE n value).length = n := by
  simp [ofNatBE]

theorem toNatLE_ofNatLE (n value : Nat) : toNatLE (ofNatLE n value) = value % Nat.pow 256 n := by
  induction n generalizing value with
  | zero => exact (Nat.mod_one value).symm
  | succ n ih =>
    have low : value.toUInt8.toNat = value % 256 := UInt8.toNat_ofNat'
    rw [ofNatLE, toNatLE, ih, low, Nat.pow_eq, Nat.pow_eq, Nat.pow_succ, Nat.mul_comm _ 256, Nat.mod_mul]

theorem toNatLE_ofNatLE_of_lt {n value : Nat} (h : value < Nat.pow 256 n) :
    toNatLE (ofNatLE n value) = value := by
  rw [toNatLE_ofNatLE, Nat.mod_eq_of_lt h]

theorem ofNatLE_toNatLE (bytes : Bytes) : ofNatLE bytes.length (toNatLE bytes) = bytes := by
  induction bytes with
  | nil => rfl
  | cons b bytes ih =>
    have := b.toNat_lt
    have low : (b.toNat + 256 * toNatLE bytes).toUInt8 = b := by
      apply UInt8.toNat_inj.1
      rw [UInt8.toNat_ofNat']
      omega
    rw [toNatLE, List.length_cons, ofNatLE, low,
      show (b.toNat + 256 * toNatLE bytes) / 256 = toNatLE bytes by omega, ih]

theorem toNatLE_lt (bytes : Bytes) : toNatLE bytes < Nat.pow 256 bytes.length := by
  induction bytes with
  | nil => exact Nat.one_pos
  | cons b bytes ih =>
    have := b.toNat_lt
    rw [toNatLE, List.length_cons, Nat.pow_eq, Nat.pow_succ, ← Nat.pow_eq]
    omega

theorem toNatLE_append (a b : Bytes) :
    toNatLE (a ++ b) = toNatLE a + Nat.pow 256 a.length * toNatLE b := by
  induction a with
  | nil => exact ((Nat.zero_add _).trans (Nat.one_mul _)).symm
  | cons byte a ih =>
    have power : Nat.pow 256 (a.length + 1) = 256 * Nat.pow 256 a.length := Nat.mul_comm ..
    rw [List.cons_append, toNatLE, ih, toNatLE, List.length_cons, power, Nat.mul_add, Nat.mul_assoc,
      Nat.add_assoc]

theorem toNatLE_reverse (bytes : Bytes) : toNatLE bytes.reverse = toNatBE bytes := by
  rw [toNatBE, List.foldl_eq_foldr_reverse]
  induction bytes.reverse with
  | nil => rfl
  | cons b rest ih => rw [toNatLE, ih, List.foldr_cons, Nat.add_comm]

theorem toNatBE_append (a b : Bytes) :
    toNatBE (a ++ b) = toNatBE a * Nat.pow 256 b.length + toNatBE b := by
  rw [← toNatLE_reverse, List.reverse_append, toNatLE_append, toNatLE_reverse, toNatLE_reverse,
    List.length_reverse, Nat.mul_comm, Nat.add_comm]

theorem toNatBE_ofNatBE_of_lt {n value : Nat} (h : value < Nat.pow 256 n) :
    toNatBE (ofNatBE n value) = value := by
  rw [← toNatLE_reverse, ofNatBE, List.reverse_reverse, toNatLE_ofNatLE_of_lt h]

theorem ofNatBE_toNatBE (bytes : Bytes) : ofNatBE bytes.length (toNatBE bytes) = bytes := by
  rw [← toNatLE_reverse, ofNatBE, ← List.length_reverse, ofNatLE_toNatLE, List.reverse_reverse]

/-- Cuts `bytes` into pieces of `n + 1` bytes; the last piece may be shorter. -/
def chunks (n : Nat) : Bytes → List Bytes
  | [] => []
  | b :: rest => (b :: rest.take n) :: chunks n (rest.drop n)
termination_by bytes => bytes.length
decreasing_by
  rw [List.length_drop, List.length_cons]
  exact Nat.lt_succ_of_le (Nat.sub_le ..)

theorem flatten_chunks (n : Nat) (bytes : Bytes) : (chunks n bytes).flatten = bytes := by
  fun_induction chunks n bytes with
  | case1 => rfl
  | case2 b rest ih => simp [ih]

end Bytes

/-- Exactly `n` bytes. -/
structure FixedBytes (n : Nat) where
  /-- The bytes in order. -/
  toList : Bytes
  length_toList : toList.length = n
  deriving DecidableEq, Hashable

namespace FixedBytes

/-- `bytes` when there are exactly `n` of them. -/
def ofList? (n : Nat) (bytes : Bytes) : Option (FixedBytes n) :=
  if h : bytes.length = n then some ⟨bytes, h⟩ else none

/-- `n` zero bytes. -/
def zeros (n : Nat) : FixedBytes n :=
  ⟨List.replicate n 0, by simp⟩

instance : Inhabited (FixedBytes n) := ⟨zeros n⟩

@[ext] theorem ext {a b : FixedBytes n} (h : a.toList = b.toList) : a = b := by
  cases a; cases b; cases h; rfl

end FixedBytes

end PeerCensus
