import Mathlib.NumberTheory.LegendreSymbol.Basic
import PeerCensus.Proofs.Curve.Prime

/-!
# Encodings of keys

Since the coordinates are counted modulo a prime, there are two second coordinates to a first one,
an even and an odd one, and a power is a root where there is one. No point of the curve is its own
opposite. So a first coordinate and a parity are those of one key at most, and the key is found.

Results:
* `ofX?_eq_some_iff`: which key is found from a first coordinate and a parity.
* `compressed_injective`: the compressed encoding determines the key.
* `decode_eq_some_iff`: a key is read from its encodings, and from nothing else.
-/

namespace PeerCensus

namespace Secp256k1

instance fact_prime_p : Fact p.Prime := ⟨prime_p⟩

theorem p_odd : p % 2 = 1 := by decide

theorem cast_inj {a b : Nat} (ha : a < p) (hb : b < p) (h : (a : ZMod p) = b) : a = b := by
  have := (ZMod.natCast_eq_natCast_iff' a b p).1 h
  rwa [Nat.mod_eq_of_lt ha, Nat.mod_eq_of_lt hb] at this

/-- The second coordinate of the opposite point. -/
theorem cast_opposite {y : Nat} (h : y < p) : (((p - y) % p : Nat) : ZMod p) = -(y : ZMod p) := by
  rw [ZMod.natCast_mod, Nat.cast_sub (Nat.le_of_lt h), ZMod.natCast_self, zero_sub]

/-- The opposite of a point has the other parity. -/
theorem opposite_mod_two {y : Nat} (h : y < p) (hy : y ≠ 0) : (p - y) % p % 2 = 1 - y % 2 := by
  have := p_odd
  rw [Nat.mod_eq_of_lt (by omega : p - y < p)]
  omega

/-- Two roots of one number that have one parity are equal. -/
theorem root_unique {y y' : Nat} (hy : y < p) (hy' : y' < p) (hsquare : (y : ZMod p) ^ 2 = y' ^ 2)
    (hparity : y % 2 = y' % 2) : y = y' := by
  rcases sq_eq_sq_iff_eq_or_eq_neg.1 hsquare with h | h
  · exact cast_inj hy hy' h
  · rw [← cast_opposite hy'] at h
    obtain rfl := cast_inj hy (Nat.mod_lt _ prime_p.pos) h
    by_cases hzero : y' = 0
    · subst hzero
      exact Nat.mod_self p
    · have := opposite_mod_two hy' hzero
      omega

/-- The power by which roots are found takes the square of `a` to `a` or to its opposite, since `p`
leaves three modulo four. -/
theorem pow_eq_or_eq_neg (a : ZMod p) :
    (a ^ 2) ^ ((p + 1) / 4) = a ∨ (a ^ 2) ^ ((p + 1) / 4) = -a := by
  have exponent : 2 * ((p + 1) / 4) = p / 2 + 1 := by decide
  rw [← pow_mul, exponent, pow_succ]
  by_cases ha : a = 0
  · left
    rw [ha, mul_zero]
  · rcases ZMod.pow_div_two_eq_neg_one_or_one p ha with h | h
    · left
      rw [h, one_mul]
    · right
      rw [h, neg_one_mul]

/-- Minus seven is not a cube, so that no point has the second coordinate zero. -/
theorem cube_add_seven_ne_zero (x : ZMod p) : x ^ 3 + 7 ≠ 0 := by
  intro h
  have cube : x ^ 3 = ((p - 7 : Nat) : ZMod p) := by
    rw [Nat.cast_sub (by decide), ZMod.natCast_self, zero_sub]
    exact eq_neg_of_add_eq_zero_left h
  have hx : x ≠ 0 := by
    rintro rfl
    rw [zero_pow (by decide), zero_add] at h
    have : p ∣ 7 := (ZMod.natCast_eq_zero_iff 7 p).1 (by exact_mod_cast h)
    exact absurd (Nat.le_of_dvd (by decide) this) (by decide)
  have fermat : (((power p (p - 7) ((p - 1) / 3)) : Nat) : ZMod p) = 1 := by
    rw [cast_power (dvd_refl p) (by decide), ← cube, ← pow_mul,
      show 3 * ((p - 1) / 3) = p - 1 by decide]
    exact ZMod.pow_card_sub_one_eq_one hx
  rw [← Nat.cast_one (R := ZMod p), ZMod.natCast_eq_natCast_iff'] at fermat
  exact absurd fermat (by decide +kernel)

end Secp256k1

open Secp256k1

namespace PublicKey

variable {key key' : PublicKey}

theorem cast_on_curve (key : PublicKey) : (key.y : ZMod p) ^ 2 = (key.x : ZMod p) ^ 3 + 7 := by
  have h := (ZMod.natCast_eq_natCast_iff' _ _ p).2 key.on_curve
  push_cast at h
  rw [sq, h]
  ring

theorem y_ne_zero (key : PublicKey) : key.y ≠ 0 := by
  intro h
  have on := key.cast_on_curve
  rw [h, Nat.cast_zero, zero_pow (by decide)] at on
  exact cube_add_seven_ne_zero _ on.symm

/-- A key is determined by its first coordinate and the parity of the second one. -/
theorem ext_parity (hx : key.x = key'.x) (hparity : key.y % 2 = key'.y % 2) : key = key' := by
  have square : (key.y : ZMod p) ^ 2 = (key'.y : ZMod p) ^ 2 := by
    rw [cast_on_curve, cast_on_curve, hx]
  have hy := root_unique key.y_lt key'.y_lt square hparity
  cases key
  cases key'
  cases hx
  cases hy
  rfl

theorem ofCoordinates?_eq_some_iff {x y : Nat} :
    ofCoordinates? x y = some key ↔ key.x = x ∧ key.y = y := by
  rw [ofCoordinates?]
  constructor
  · intro h
    split at h
    · cases h
      exact ⟨rfl, rfl⟩
    · cases h
  · rintro ⟨rfl, rfl⟩
    rw [dif_pos ⟨key.x_lt, key.y_lt, key.on_curve⟩]

/-- The number that is tried as a root for the first coordinate of a key is the second coordinate, or
that of the opposite point. -/
theorem root_eq (key : PublicKey) :
    power p ((key.x * key.x * key.x + 7) % p) ((p + 1) / 4) = key.y ∨
      power p ((key.x * key.x * key.x + 7) % p) ((p + 1) / 4) = (p - key.y) % p := by
  have small : power p ((key.x * key.x * key.x + 7) % p) ((p + 1) / 4) < p := by
    rw [power_eq _ _ (by decide)]
    exact Nat.mod_lt _ prime_p.pos
  have root : ((power p ((key.x * key.x * key.x + 7) % p) ((p + 1) / 4) : Nat) : ZMod p) =
      ((key.y : ZMod p) ^ 2) ^ ((p + 1) / 4) := by
    rw [cast_power (dvd_refl p) (by decide), ZMod.natCast_mod, cast_on_curve]
    push_cast
    ring
  rcases pow_eq_or_eq_neg (key.y : ZMod p) with h | h
  · exact .inl (cast_inj small key.y_lt (root.trans h))
  · right
    refine cast_inj small (Nat.mod_lt _ prime_p.pos) ?_
    rw [cast_opposite key.y_lt]
    exact root.trans h

/-- From a first coordinate and a parity the key with these is found. -/
theorem ofX?_eq_some_iff {x : Nat} {odd : Bool} :
    ofX? x odd = some key ↔ key.x = x ∧ (key.y % 2 == 1) = odd := by
  have opposite := opposite_mod_two key.y_lt key.y_ne_zero
  have involutive : (p - (p - key.y) % p) % p = key.y := by
    have := key.y_lt
    have := Nat.pos_of_ne_zero key.y_ne_zero
    rw [Nat.mod_eq_of_lt (by omega : p - key.y < p), Nat.sub_sub_self (by omega),
      Nat.mod_eq_of_lt (by omega)]
  -- once the first coordinate is that of the key, there are two candidates for the second one
  have candidates : key.x = x → ∃ y, ofX? x odd = ofCoordinates? x y ∧
      (y = key.y ∧ (key.y % 2 == 1) = odd ∨ y = (p - key.y) % p ∧ (key.y % 2 == 1) ≠ odd) := by
    rintro rfl
    refine ⟨_, rfl, ?_⟩
    rcases key.root_eq with h | h
    · rw [h]
      split
      · rename_i hparity
        exact .inl ⟨rfl, eq_of_beq hparity⟩
      · rename_i hparity
        exact .inr ⟨rfl, fun heq => hparity (beq_iff_eq.2 heq)⟩
    · rw [h, opposite]
      rcases Nat.mod_two_eq_zero_or_one key.y with h2 | h2 <;> cases odd <;>
        simp [h2, involutive]
  constructor
  · intro h
    have hx : key.x = x := (ofCoordinates?_eq_some_iff.1 h).1
    refine ⟨hx, ?_⟩
    obtain ⟨y, hy, ⟨-, hodd⟩ | ⟨hopposite, -⟩⟩ := candidates hx
    · exact hodd
    · rw [hy] at h
      have same := (ofCoordinates?_eq_some_iff.1 h).2
      omega
  · rintro ⟨hx, hodd⟩
    obtain ⟨y, hy, ⟨hself, -⟩ | ⟨-, hne⟩⟩ := candidates hx
    · rw [hy]
      exact ofCoordinates?_eq_some_iff.2 ⟨hx, hself.symm⟩
    · exact absurd hodd hne

/-! ## Encodings -/

/-- The tag of the hybrid encoding, which repeats the parity. -/
def hybridTag (key : PublicKey) : UInt8 :=
  if key.y % 2 = 1 then 7 else 6

/-- The encodings of a key: compressed, uncompressed and hybrid. -/
def encodings (key : PublicKey) : List Bytes :=
  [key.compressed, 4 :: key.coordinates, key.hybridTag :: key.coordinates]

theorem lt_pow_of_lt_p {n : Nat} (h : n < p) : n < Nat.pow 256 32 :=
  Nat.lt_trans h (by decide)

/-- A coordinate is written in 32 bytes. -/
theorem ofNatBE_eq_iff {n : Nat} {bytes : Bytes} (hn : n < p) (hlength : bytes.length = 32) :
    Bytes.ofNatBE 32 n = bytes ↔ n = Bytes.toNatBE bytes := by
  constructor
  · rintro rfl
    exact (Bytes.toNatBE_ofNatBE_of_lt (lt_pow_of_lt_p hn)).symm
  · rintro rfl
    rw [← hlength]
    exact Bytes.ofNatBE_toNatBE bytes

theorem length_coordinates (key : PublicKey) : key.coordinates.length = 64 := by
  simp [coordinates]

theorem coordinates_eq_iff {bytes : Bytes} (hlength : bytes.length = 64) :
    key.coordinates = bytes ↔
      key.x = Bytes.toNatBE (bytes.take 32) ∧ key.y = Bytes.toNatBE (bytes.drop 32) := by
  have front : (bytes.take 32).length = 32 := by rw [List.length_take]; omega
  have back : (bytes.drop 32).length = 32 := by rw [List.length_drop]; omega
  rw [← ofNatBE_eq_iff key.x_lt front, ← ofNatBE_eq_iff key.y_lt back]
  constructor
  · rintro rfl
    simp [coordinates]
  · rintro ⟨hx, hy⟩
    rw [coordinates, hx, hy, List.take_append_drop]

theorem compressed_eq_iff {tag : UInt8} {rest : Bytes} (hlength : rest.length = 32) :
    key.compressed = tag :: rest ↔
      (tag = 2 ∨ tag = 3) ∧ key.x = Bytes.toNatBE rest ∧ (key.y % 2 == 1) = (tag == 3) := by
  rw [← ofNatBE_eq_iff key.x_lt hlength, compressed, parityTag, List.cons.injEq]
  rcases Nat.mod_two_eq_zero_or_one key.y with h | h
  · rw [h]
    constructor
    · rintro ⟨rfl, hx⟩
      exact ⟨.inl rfl, hx, rfl⟩
    · rintro ⟨rfl | rfl, hx, hparity⟩
      · exact ⟨rfl, hx⟩
      · cases hparity
  · rw [h]
    constructor
    · rintro ⟨rfl, hx⟩
      exact ⟨.inr rfl, hx, rfl⟩
    · rintro ⟨rfl | rfl, hx, hparity⟩
      · cases hparity
      · exact ⟨rfl, hx⟩

/-- The compressed encoding determines the key. -/
theorem compressed_injective (h : key.compressed = key'.compressed) : key = key' := by
  have length : (Bytes.ofNatBE 32 key'.x).length = 32 := Bytes.length_ofNatBE ..
  obtain ⟨-, hx, hparity⟩ := (compressed_eq_iff length).1 h
  obtain ⟨-, hx', hparity'⟩ := (@compressed_eq_iff key' _ _ length).1 rfl
  refine ext_parity (hx.trans hx'.symm) ?_
  have same := hparity.trans hparity'.symm
  rcases Nat.mod_two_eq_zero_or_one key.y with h1 | h1 <;>
    rcases Nat.mod_two_eq_zero_or_one key'.y with h2 | h2 <;> simp [h1, h2] at same ⊢

theorem length_of_mem_encodings {tag : UInt8} {rest : Bytes} (h : tag :: rest ∈ key.encodings) :
    rest.length = 32 ∨ rest.length = 64 := by
  simp only [encodings, compressed, List.mem_cons, List.cons.injEq, List.not_mem_nil, or_false] at h
  rcases h with ⟨-, rfl⟩ | ⟨-, rfl⟩ | ⟨-, rfl⟩
  · exact .inl (Bytes.length_ofNatBE ..)
  · exact .inr key.length_coordinates
  · exact .inr key.length_coordinates

theorem mem_encodings_short {tag : UInt8} {rest : Bytes} (hlength : rest.length = 32) :
    tag :: rest ∈ key.encodings ↔
      (tag = 2 ∨ tag = 3) ∧ key.x = Bytes.toNatBE rest ∧ (key.y % 2 == 1) = (tag == 3) := by
  have : rest ≠ key.coordinates := by
    rintro rfl
    rw [length_coordinates] at hlength
    cases hlength
  rw [← compressed_eq_iff hlength]
  simp [encodings, this, eq_comm]

theorem mem_encodings_long {tag : UInt8} {rest : Bytes} (hlength : rest.length = 64) :
    tag :: rest ∈ key.encodings ↔ (tag = 4 ∨ tag = key.hybridTag) ∧
      key.x = Bytes.toNatBE (rest.take 32) ∧ key.y = Bytes.toNatBE (rest.drop 32) := by
  have : tag :: rest ≠ key.compressed := by
    intro h
    have := congrArg List.length h
    rw [length_compressed, List.length_cons] at this
    omega
  rw [← coordinates_eq_iff hlength]
  simp only [encodings, List.mem_cons, List.cons.injEq, List.not_mem_nil, or_false, this, false_or,
    ← or_and_right, eq_comm (a := rest)]

/-- The tags of the encodings with both coordinates. -/
theorem eq_hybridTag_iff {tag : UInt8} :
    tag = key.hybridTag ↔ tag = 6 ∧ key.y % 2 = 0 ∨ tag = 7 ∧ key.y % 2 = 1 := by
  rw [hybridTag]
  split
  · rename_i hodd
    simp [hodd]
  · rename_i hodd
    simp [Nat.mod_two_ne_one.1 hodd]

/-- A key is read from its encodings, and from nothing else. -/
theorem decode_eq_some_iff {bytes : Bytes} : decode bytes = some key ↔ bytes ∈ key.encodings := by
  cases bytes with
  | nil => simp [decode, encodings, compressed]
  | cons tag rest =>
    rw [decode]
    split
    · rename_i hlength
      rw [mem_encodings_short hlength]
      split
      · rename_i htag
        rw [ofX?_eq_some_iff, and_iff_right htag]
      · rename_i htag
        exact ⟨nofun, fun h => absurd h.1 htag⟩
    · rename_i hshort
      split
      · rename_i hlength
        rw [mem_encodings_long hlength, eq_hybridTag_iff]
        dsimp only
        split
        · rename_i htag
          rw [ofCoordinates?_eq_some_iff]
          exact ⟨fun h => ⟨h.2 ▸ htag, h⟩, fun h => h.2⟩
        · rename_i htag
          exact ⟨nofun, fun h => absurd (h.2.2 ▸ h.1) htag⟩
      · rename_i hlong
        exact ⟨nofun, fun h => (length_of_mem_encodings h).elim (absurd · hshort) (absurd · hlong)⟩

end PublicKey

end PeerCensus
