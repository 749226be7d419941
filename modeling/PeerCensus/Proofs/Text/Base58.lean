import Mathlib.Data.List.Induction
import PeerCensus.Text.Base58

/-!
# Base58 read back

The digits of a number determine it, and the first of them is not zero, so that the zeros in front of
a text are those in front of the bytes. The text of a byte string is therefore read as these bytes
again, and no other byte string has the same text.

Results:
* `Text.mapM_map`: a row of digits is read back digit by digit.
* `decode_encode`: a text is read as the bytes that it was written for.
* `encode_injective`: different byte strings have different texts.
* `exists_append_of_div`: the first characters of a text are the digits of a quotient.
-/

namespace PeerCensus

/-- Rows of digits are read back if each digit is. -/
theorem Text.mapM_map {read : Char → Option Nat} {digit : Nat → Char} {ds : List Nat}
    (h : ∀ d ∈ ds, read (digit d) = some d) : (ds.map digit).mapM read = some ds := by
  induction ds with
  | nil => rfl
  | cons d ds ih =>
    obtain ⟨hd, hds⟩ := List.forall_mem_cons.1 h
    rw [List.map_cons, List.mapM_cons, hd, ih hds]
    rfl

namespace Base58

/-! ## Digits -/

theorem digits_zero : digits 0 = [] := by
  rw [digits, if_pos rfl]

theorem digits_of_ne_zero {n : Nat} (h : n ≠ 0) : digits n = n % 58 :: digits (n / 58) := by
  rw [digits, if_neg h]

theorem lt_of_mem_digits {n d : Nat} (h : d ∈ digits n) : d < 58 := by
  fun_induction digits n with
  | case1 => cases h
  | case2 n _ ih =>
    rcases List.mem_cons.1 h with rfl | h
    · omega
    · exact ih h

/-- The number that digits stand for, the most significant one first. -/
def value (digits : List Nat) : Nat :=
  digits.foldl (fun acc d => acc * 58 + d) 0

theorem value_append_singleton (ds : List Nat) (d : Nat) : value (ds ++ [d]) = value ds * 58 + d := by
  rw [value, List.foldl_append]
  rfl

theorem value_digits (n : Nat) : value (digits n).reverse = n := by
  fun_induction digits n with
  | case1 => rfl
  | case2 n _ ih =>
    rw [List.reverse_cons, value_append_singleton, ih]
    omega

theorem value_replicate_append (z : Nat) (ds : List Nat) :
    value (List.replicate z 0 ++ ds) = value ds := by
  induction z with
  | zero => rfl
  | succ z ih => exact ih

/-- The most significant digit is not zero. -/
theorem getLast?_digits_ne_zero (n : Nat) : (digits n).getLast? ≠ some 0 := by
  fun_induction digits n with
  | case1 => exact nofun
  | case2 n hn ih =>
    rw [List.getLast?_cons]
    cases hlast : (digits (n / 58)).getLast? with
    | some d =>
      rw [hlast] at ih
      exact ih
    | none =>
      -- a single digit is the number itself
      have : n / 58 = 0 := by
        by_contra hne
        rw [digits_of_ne_zero hne, List.getLast?_cons] at hlast
        cases hlast
      rw [Option.getD_none, ne_eq, Option.some.injEq]
      omega

/-- The digits above the `m` lowest ones are those of a quotient. -/
theorem drop_digits (m n : Nat) : (digits n).drop m = digits (n / Nat.pow 58 m) := by
  induction m generalizing n with
  | zero => exact congrArg digits (Nat.div_one n).symm
  | succ m ih =>
    by_cases hn : n = 0
    · rw [hn, Nat.zero_div, digits_zero, List.drop_nil]
    · rw [digits_of_ne_zero hn, List.drop_succ_cons, ih, Nat.div_div_eq_div_mul, Nat.mul_comm]
      rfl

/-! ## Characters -/

theorem idxOf?_digit {d : Nat} (h : d < 58) : alphabet.idxOf? (digit d) = some d := by
  have all : ∀ d : Fin 58, alphabet.idxOf? (digit d) = some d.val := by decide +kernel
  exact all ⟨d, h⟩

theorem digit_eq_one_iff {d : Nat} (h : d < 58) : (digit d == '1') = (d == 0) := by
  have all : ∀ d : Fin 58, (digit d == '1') = (d.val == 0) := by decide +kernel
  exact all ⟨d, h⟩

theorem mapM_digit {ds : List Nat} (h : ∀ d ∈ ds, d < 58) :
    ((ds.map digit).mapM fun c => alphabet.idxOf? c) = some ds :=
  Text.mapM_map fun d hd => idxOf?_digit (h d hd)

theorem takeWhile_digit {ds : List Nat} (h : ∀ d ∈ ds, d < 58) :
    ((ds.map digit).takeWhile (· == '1')).length = (ds.takeWhile (· == 0)).length := by
  induction ds with
  | nil => rfl
  | cons d ds ih =>
    obtain ⟨hd, hds⟩ := List.forall_mem_cons.1 h
    rw [List.map_cons, List.takeWhile_cons, List.takeWhile_cons, digit_eq_one_iff hd]
    split
    · rw [List.length_cons, List.length_cons, ih hds]
    · rfl

/-! ## Bytes -/

theorem toNatBE_append_singleton (bytes : Bytes) (b : UInt8) :
    Bytes.toNatBE (bytes ++ [b]) = 256 * Bytes.toNatBE bytes + b.toNat := by
  rw [Bytes.toNatBE, List.foldl_append]
  rfl

theorem toBytes_zero : toBytes 0 = [] := by
  rw [toBytes, if_pos rfl]

theorem toBytes_of_ne_zero {n : Nat} (h : n ≠ 0) : toBytes n = toBytes (n / 256) ++ [n.toUInt8] := by
  rw [toBytes, if_neg h]

theorem dropWhile_append_singleton (bytes : Bytes) (b : UInt8) :
    (bytes ++ [b]).dropWhile (· == 0) =
      if bytes.dropWhile (· == 0) = [] ∧ b = 0 then [] else bytes.dropWhile (· == 0) ++ [b] := by
  induction bytes with
  | nil => by_cases hb : b = 0 <;> simp [hb]
  | cons a bytes ih =>
    rw [List.cons_append, List.dropWhile_cons, List.dropWhile_cons]
    split
    · exact ih
    · simp

/-- The bytes of a number are those that spell it, without the zeros in front. -/
theorem toBytes_toNatBE (bytes : Bytes) :
    toBytes (Bytes.toNatBE bytes) = bytes.dropWhile (· == 0) := by
  induction bytes using List.reverseRecOn with
  | nil => exact toBytes_zero
  | append_singleton bytes b ih =>
    have hb := b.toNat_lt
    have low : (256 * Bytes.toNatBE bytes + b.toNat).toUInt8 = b := by
      apply UInt8.toNat_inj.1
      rw [UInt8.toNat_ofNat']
      omega
    rw [toNatBE_append_singleton, dropWhile_append_singleton]
    split
    · rename_i h
      obtain ⟨hnil, rfl⟩ := h
      have : Bytes.toNatBE bytes = 0 := by
        by_contra hne
        rw [toBytes_of_ne_zero hne, hnil] at ih
        simp at ih
      rw [this]
      exact toBytes_zero
    · rename_i h
      have hne : 256 * Bytes.toNatBE bytes + b.toNat ≠ 0 := by
        intro hzero
        have hn : Bytes.toNatBE bytes = 0 := by omega
        have hb : b = 0 := UInt8.toNat_inj.1 (by show b.toNat = 0; omega)
        rw [hn, toBytes_zero] at ih
        exact h ⟨ih.symm, hb⟩
      rw [toBytes_of_ne_zero hne, low, show (256 * Bytes.toNatBE bytes + b.toNat) / 256 =
        Bytes.toNatBE bytes by omega, ih]

theorem replicate_append_dropWhile (bytes : Bytes) :
    List.replicate (bytes.takeWhile (· == 0)).length 0 ++ bytes.dropWhile (· == 0) = bytes := by
  induction bytes with
  | nil => rfl
  | cons b bytes ih =>
    rw [List.takeWhile_cons, List.dropWhile_cons]
    split
    · rename_i hb
      rw [List.length_cons, List.replicate_succ, List.cons_append, ih, ← eq_of_beq hb]
    · rfl

/-! ## Texts -/

/-- All digits of the text of `bytes`, with those for the zeros in front. -/
def allDigits (bytes : Bytes) : List Nat :=
  List.replicate (bytes.takeWhile (· == 0)).length 0 ++ (digits (Bytes.toNatBE bytes)).reverse

theorem encode_eq (bytes : Bytes) : encode bytes = String.ofList ((allDigits bytes).map digit) := by
  rw [encode, allDigits, List.map_append, List.map_replicate, List.map_reverse]
  rfl

theorem lt_of_mem_allDigits {bytes : Bytes} {d : Nat} (h : d ∈ allDigits bytes) : d < 58 := by
  rcases List.mem_append.1 h with h | h
  · rw [List.eq_of_mem_replicate h]
    omega
  · exact lt_of_mem_digits (List.mem_reverse.1 h)

/-- The zeros in front of a text are those in front of the bytes. -/
theorem length_takeWhile_allDigits (bytes : Bytes) :
    ((allDigits bytes).takeWhile (· == 0)).length = (bytes.takeWhile (· == 0)).length := by
  have stop : (digits (Bytes.toNatBE bytes)).reverse.takeWhile (· == 0) = [] := by
    have first := getLast?_digits_ne_zero (Bytes.toNatBE bytes)
    rw [← List.head?_reverse] at first
    cases hds : (digits (Bytes.toNatBE bytes)).reverse with
    | nil => rfl
    | cons d ds =>
      rw [hds] at first
      have hd : d ≠ 0 := fun h => first (congrArg some h)
      rw [List.takeWhile_cons, if_neg (by simpa using hd)]
  rw [allDigits, List.takeWhile_append_of_pos (by simp), stop, List.append_nil, List.length_replicate]

/-- A text is read as the bytes that it was written for. -/
theorem decode_encode (bytes : Bytes) : decode (encode bytes) = some bytes := by
  have small : ∀ d ∈ allDigits bytes, d < 58 := fun _ => lt_of_mem_allDigits
  have number : value (allDigits bytes) = Bytes.toNatBE bytes := by
    rw [allDigits, value_replicate_append, value_digits]
  rw [encode_eq, decode]
  simp only [String.toList_ofList, mapM_digit small, Option.bind_eq_bind, Option.bind_some,
    takeWhile_digit small, length_takeWhile_allDigits, ← value.eq_1, number, toBytes_toNatBE,
    replicate_append_dropWhile]
  rfl

/-- Different byte strings have different texts. -/
theorem encode_injective {a b : Bytes} (h : encode a = encode b) : a = b := by
  have read := decode_encode a
  rw [h, decode_encode b] at read
  exact (Option.some.inj read).symm

/-- The first characters of a text, after those for zeros, are the digits of a quotient of its
number. -/
theorem exists_append_of_div (m : Nat) (bytes : Bytes) :
    ∃ rest, encode bytes = String.ofList
      (((List.replicate (bytes.takeWhile (· == 0)).length 0 ++
        (digits (Bytes.toNatBE bytes / Nat.pow 58 m)).reverse).map digit) ++ rest) := by
  refine ⟨((digits (Bytes.toNatBE bytes)).take m).reverse.map digit, ?_⟩
  rw [encode_eq, allDigits, ← drop_digits, ← List.map_append, List.append_assoc,
    ← List.reverse_append, List.take_append_drop]

end Base58

end PeerCensus
