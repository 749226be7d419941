import Mathlib.Algebra.BigOperators.Associated
import Mathlib.FieldTheory.Finite.Basic
import Mathlib.Tactic.NormNum.Prime
import PeerCensus.Curve.Secp256k1

/-!
# The prime of the coordinates

Powers modulo a number are computed by squaring, and with them it is shown that `p` is prime. A base
whose power to the exponent `n - 1` is one has an order modulo each prime divisor of `n`. If this
order is a multiple of primes with a product above the root of `n`, then so is every prime divisor
of `n` above the root of `n`, and `n` is prime itself. The chain ends at primes that are small
enough to be tried out.

Results:
* `power_eq`: what is computed is the power.
* `prime_of_certifies`: a number with a base and primes as above is prime.
* `prime_p`: the coordinates are counted modulo a prime.
-/

namespace PeerCensus.Secp256k1

/-! ## Powers -/

/-- One round of squaring, with a factor `a` if the bit is set. -/
def square (m a acc : Nat) (bit : Bool) : Nat :=
  let square := acc * acc % m
  if bit then square * a % m else square

theorem square_modEq (m a acc : Nat) (bit : Bool) :
    square m a acc bit ≡ acc ^ 2 * a ^ bit.toNat [MOD m] := by
  rw [sq]
  cases bit with
  | false =>
    rw [Bool.toNat_false, Nat.pow_zero, Nat.mul_one]
    exact Nat.mod_modEq _ m
  | true =>
    rw [Bool.toNat_true, Nat.pow_one]
    exact (Nat.mod_modEq _ m).trans ((Nat.mod_modEq _ m).mul_right a)

theorem square_mod (m a acc : Nat) (bit : Bool) : square m a acc bit % m = square m a acc bit := by
  cases bit <;> exact Nat.mod_mod _ m

/-- After the rounds for the `n` low bits of `e`, the first of them for the highest bit. -/
theorem foldl_square_modEq (m a e n acc : Nat) :
    ((List.range n).reverse.map e.testBit).foldl (square m a) acc ≡
      acc ^ 2 ^ n * a ^ (e % 2 ^ n) [MOD m] := by
  induction n generalizing acc with
  | zero => simp [Nat.mod_one, Nat.ModEq.refl]
  | succ n ih =>
    have low : e % 2 ^ (n + 1) = (e.testBit n).toNat * 2 ^ n + e % 2 ^ n := by
      rw [Nat.testBit_eq_decide_div_mod_eq, Nat.pow_succ, Nat.mod_mul]
      rcases Nat.mod_two_eq_zero_or_one (e / 2 ^ n) with h | h <;> simp [h, Nat.add_comm]
    have first := ((square_modEq m a acc (e.testBit n)).pow (2 ^ n)).mul_right (a ^ (e % 2 ^ n))
    rw [List.range_succ, List.reverse_append, List.reverse_singleton, List.singleton_append,
      List.map_cons, List.foldl_cons, low, Nat.pow_succ', Nat.pow_mul, Nat.pow_add a, Nat.pow_mul,
      ← Nat.mul_assoc, ← Nat.mul_pow]
    exact (ih _).trans first

/-- What is computed is the power. -/
theorem power_eq (m a : Nat) {e : Nat} (he : e < 2 ^ 256) : power m a e = a ^ e % m := by
  have same : power m a e = (bits e).foldl (square m a) 1 := rfl
  have rounds := foldl_square_modEq m a e 256 1
  rw [Nat.one_pow, Nat.one_mul, Nat.mod_eq_of_lt he] at rounds
  have last : bits e = ((List.range 255).reverse.map fun i => e.testBit (i + 1)) ++ [e.testBit 0] := by
    rw [bits, List.range_succ_eq_map, List.reverse_cons, List.map_append, ← List.map_reverse,
      List.map_map]
    rfl
  have reduced : power m a e % m = power m a e := by
    rw [same, last, List.foldl_append]
    exact square_mod m a _ _
  rw [← reduced, same]
  exact rounds

/-! ## Primes -/

/-- Whether the powers of `a` show that the order of `a` modulo each prime divisor of `n` is a multiple
of all `factors`, whose product is above the root of `n`. -/
def certifies (n a : Nat) (factors : List Nat) : Bool :=
  1 < n && n < 2 ^ 256 && n < factors.prod ^ 2 && power n a (n - 1) == 1 &&
    factors.all fun f => (n - 1) % f == 0 && Nat.gcd (power n a ((n - 1) / f) - 1) n == 1

/-- What a power is modulo a divisor of the modulus. -/
theorem cast_power {n d a e : Nat} (hd : d ∣ n) (he : e < 2 ^ 256) :
    ((power n a e : Nat) : ZMod d) = (a : ZMod d) ^ e := by
  rw [power_eq n a he, ← Nat.cast_pow, ZMod.natCast_eq_natCast_iff]
  exact (Nat.mod_modEq _ n).of_dvd hd

/-- A prime divides the order of `a` if it divides an exponent at which the power of `a` is one, and
the power is not one at the quotient. -/
theorem dvd_orderOf {G : Type} [Monoid G] {x : G} {n f : Nat} (hf : f.Prime) (hdvd : f ∣ n)
    (hone : x ^ n = 1) (hne : x ^ (n / f) ≠ 1) : f ∣ orderOf x := by
  by_contra hnot
  apply hne
  apply orderOf_dvd_iff_pow_eq_one.1
  refine Nat.Coprime.dvd_of_dvd_mul_left ((Nat.Prime.coprime_iff_not_dvd hf).2 hnot).symm ?_
  rw [Nat.mul_div_cancel' hdvd]
  exact orderOf_dvd_of_pow_eq_one hone

/-- If a power less one has no common divisor with `n`, then the power is not one modulo any prime
divisor of `n`. -/
theorem cast_pow_ne_one {n d a e : Nat} (hd : d.Prime) (hdn : d ∣ n) (hn : 1 < n)
    (he : e < 2 ^ 256) (hgcd : Nat.gcd (power n a e - 1) n = 1) : (a : ZMod d) ^ e ≠ 1 := by
  intro hone
  have positive : 1 ≤ power n a e := by
    by_contra hzero
    rw [show power n a e - 1 = 0 by omega, Nat.gcd_zero_left] at hgcd
    omega
  rw [← cast_power hdn he, ← Nat.cast_one (R := ZMod d), ZMod.natCast_eq_natCast_iff] at hone
  have common : d ∣ Nat.gcd (power n a e - 1) n :=
    Nat.dvd_gcd ((Nat.modEq_iff_dvd' positive).1 hone.symm) hdn
  rw [hgcd] at common
  exact hd.one_lt.ne' (Nat.dvd_one.1 common)

/-- A number is prime if a base certifies it with different primes. -/
theorem prime_of_certifies {n : Nat} (a : Nat) (factors : List Nat) (hprime : ∀ f ∈ factors, f.Prime)
    (hnodup : factors.Nodup) (h : certifies n a factors = true) : n.Prime := by
  simp only [certifies, Bool.and_eq_true, decide_eq_true_eq, beq_iff_eq, List.all_eq_true] at h
  obtain ⟨⟨⟨⟨hn, hsmall⟩, hlarge⟩, hone⟩, hall⟩ := h
  by_contra hcomposite
  have hd : n.minFac.Prime := Nat.minFac_prime (by omega)
  have hdn : n.minFac ∣ n := Nat.minFac_dvd n
  have : Fact n.minFac.Prime := ⟨hd⟩
  have one : (a : ZMod n.minFac) ^ (n - 1) = 1 := by
    rw [← cast_power hdn (by omega), hone, Nat.cast_one]
  have ha : (a : ZMod n.minFac) ≠ 0 := by
    intro hzero
    rw [hzero, zero_pow (by omega)] at one
    exact zero_ne_one one
  have divides : ∀ f ∈ factors, f ∣ orderOf (a : ZMod n.minFac) := by
    intro f hf
    obtain ⟨hmod, hgcd⟩ := hall f hf
    exact dvd_orderOf (hprime f hf) (Nat.dvd_of_mod_eq_zero hmod) one
      (cast_pow_ne_one hd hdn hn (Nat.lt_of_le_of_lt (Nat.div_le_self _ _) (by omega)) hgcd)
  have product : factors.prod ∣ orderOf (a : ZMod n.minFac) := by
    rw [← List.map_id factors, ← List.prod_toFinset id hnodup]
    exact Finset.prod_primes_dvd _ (fun f hf => (hprime f (List.mem_toFinset.1 hf)).prime)
      fun f hf => divides f (List.mem_toFinset.1 hf)
  have below : factors.prod < n.minFac := by
    have := Nat.le_of_dvd (Nat.sub_pos_of_lt hd.one_lt)
      (product.trans (ZMod.orderOf_dvd_card_sub_one ha))
    have := hd.pos
    omega
  have := Nat.pow_lt_pow_left below (n := 2) (by decide)
  have := Nat.minFac_sq_le_self (by omega) hcomposite
  omega

/-- A prime divisor of the next prime less one. -/
theorem prime_divisor_low : Nat.Prime 255515944373312847190720520512484175977 := by
  refine prime_of_certifies 2 [96557, 7240687, 107590001] ?_ (by decide)
    (by decide +kernel)
  simp only [List.mem_cons, List.not_mem_nil, or_false, forall_eq_or_imp, forall_eq]
  norm_num

/-- A prime divisor of `p - 1`. -/
theorem prime_divisor :
    Nat.Prime 205115282021455665897114700593932402728804164701536103180137503955397371 := by
  refine prime_of_certifies 2 [255515944373312847190720520512484175977] ?_ (by decide)
    (by decide +kernel)
  rw [List.forall_mem_singleton]
  exact prime_divisor_low

/-- The coordinates are counted modulo a prime. -/
theorem prime_p : p.Prime := by
  refine prime_of_certifies 2
    [205115282021455665897114700593932402728804164701536103180137503955397371] ?_
    (by decide) (by decide +kernel)
  rw [List.forall_mem_singleton]
  exact prime_divisor

end PeerCensus.Secp256k1
