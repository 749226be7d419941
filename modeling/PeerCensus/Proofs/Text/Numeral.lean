import Mathlib.Data.List.Induction
import Mathlib.Tactic.IntervalCases
import PeerCensus.Text.Numeral

/-!
# Numerals read back

The digits written for a number are read as this number, to every base up to sixteen. To the base
ten they are the only digits without leading zeros that are read so. A reader that takes as many
digits as there are cuts a text where its first digits end.

Results:
* `value_toDigits`, `toDigits_value`: digits of a number, and the number of digits.
* `takeWhile_dropWhile_digits`, `takeWhile_dropWhile_append`: how a text is cut behind its digits.
* `bounded?_eq_some_iff`: which texts are read as a bounded number.
-/

namespace PeerCensus.Numeral

variable {radix : Nat}

/-- The text does not begin with a digit. -/
def Stops (radix : Nat) (chars : List Char) : Prop :=
  ∀ c ∈ chars.head?, isDigit radix c = false

theorem stops_nil : Stops radix [] :=
  nofun

theorem stops_cons {c : Char} (chars : List Char) (h : isDigit radix c = false) :
    Stops radix (c :: chars) := by
  rintro _ ⟨⟩
  exact h

/-! ## Digits of a number -/

theorem digit?_digitChar {d : Nat} (hr : radix ≤ 16) (hd : d < radix) :
    digit? radix (Nat.digitChar d) = some d := by
  have : d < 16 := Nat.lt_of_lt_of_le hd hr
  interval_cases d <;> exact if_pos hd

theorem lt_of_digit? {c : Char} {d : Nat} (h : digit? radix c = some d) : d < radix := by
  obtain ⟨hlt, hd⟩ := Option.ite_none_right_eq_some.1 h
  exact Option.some.inj hd ▸ hlt

theorem isDigit_of_mem_toDigits (hb : 1 < radix) (hr : radix ≤ 16) {n : Nat} {c : Char}
    (h : c ∈ Nat.toDigits radix n) : isDigit radix c = true := by
  induction n using Nat.strongRecOn with
  | ind n ih =>
    rw [Nat.toDigits_eq_if hb] at h
    split at h
    · obtain rfl := List.mem_singleton.1 h
      rw [isDigit, digit?_digitChar hr ‹_›, Option.isSome_some]
    · rcases List.mem_append.1 h with h | h
      · exact ih _ (Nat.div_lt_self (by omega) hb) h
      · obtain rfl := List.mem_singleton.1 h
        rw [isDigit, digit?_digitChar hr (Nat.mod_lt _ (by omega)), Option.isSome_some]

theorem value_toDigits (hb : 1 < radix) (hr : radix ≤ 16) (n : Nat) :
    value radix (Nat.toDigits radix n) = n := by
  induction n using Nat.strongRecOn with
  | ind n ih =>
    rw [Nat.toDigits_eq_if hb]
    split
    · rw [← List.nil_append [_], value_append_singleton, digit?_digitChar hr ‹_›]
      exact (congrArg (· + n) (Nat.zero_mul radix)).trans (Nat.zero_add n)
    · rw [value_append_singleton, ih _ (Nat.div_lt_self (by omega) hb),
        digit?_digitChar hr (Nat.mod_lt _ (by omega)), Option.getD_some, Nat.div_add_mod']

theorem head?_toDigits_eq_zero_iff (hb : 1 < radix) (hr : radix ≤ 16) (n : Nat) :
    (Nat.toDigits radix n).head? = some '0' ↔ n = 0 := by
  induction n using Nat.strongRecOn with
  | ind n ih =>
    rw [Nat.toDigits_eq_if hb]
    split
    · rename_i hn
      refine ⟨fun h => ?_, fun h => by rw [h]; rfl⟩
      have hzero : digit? radix '0' = some 0 := digit?_digitChar hr (by omega : 0 < radix)
      rw [← Option.some.inj h, digit?_digitChar hr hn] at hzero
      exact Option.some.inj hzero
    · -- the first digit is that of the quotient, which is not zero either
      have hpos : 0 < n / radix := Nat.div_pos (by omega) (by omega)
      rw [List.head?_append, List.head?_eq_some_head Nat.toDigits_ne_nil, Option.some_or,
        ← List.head?_eq_some_head, ih _ (Nat.div_lt_self (by omega) hb)]
      omega

/-! ## The number of digits -/

theorem digitChar_of_digit? {c : Char} {d : Nat} (h : digit? 10 c = some d) :
    d < 10 ∧ Nat.digitChar d = c := by
  have hle (a b : Char) : a ≤ b ↔ a.toNat ≤ b.toNat := Iff.rfl
  simp only [digit?, hle, Char.reduceToNat, Option.ite_none_right_eq_some, Option.some.injEq] at h
  obtain ⟨hlt, rfl⟩ := h
  refine ⟨hlt, Char.toNat_inj.1 ?_⟩
  rw [Nat.toNat_digitChar_of_lt_ten hlt]
  split at hlt <;> grind

/-- Digits without leading zeros are those of their number. -/
theorem toDigits_value {digits : List Char} (hdigits : ∀ c ∈ digits, isDigit 10 c = true)
    (hne : digits ≠ []) (hzero : digits.head? = some '0' → digits.length = 1) :
    Nat.toDigits 10 (value 10 digits) = digits := by
  induction digits using List.reverseRecOn with
  | nil => exact absurd rfl hne
  | append_singleton init c ih =>
    obtain ⟨d, hvalue⟩ := Option.isSome_iff_exists.1 (hdigits c (by simp))
    obtain ⟨hd, rfl⟩ := digitChar_of_digit? hvalue
    rw [value_append_singleton, hvalue, Option.getD_some]
    by_cases hinit : init = []
    · subst hinit
      exact (congrArg (Nat.toDigits 10) (Nat.zero_add d)).trans (Nat.toDigits_of_lt_base hd)
    · have hhead : init.head? ≠ some '0' := by
        intro h
        have hlen := hzero (by rw [List.head?_append, h]; rfl)
        rw [List.length_append, List.length_singleton] at hlen
        exact hinit (List.eq_nil_of_length_eq_zero (Nat.succ.inj hlen))
      have ih := ih (fun c hc => hdigits c (List.mem_append_left _ hc)) hinit
        fun h => absurd h hhead
      have hpos : value 10 init ≠ 0 := by
        intro h
        rw [h] at ih
        exact hhead (by rw [← ih]; rfl)
      have hdiv : (value 10 init * 10 + d) / 10 = value 10 init := by omega
      have hmod : (value 10 init * 10 + d) % 10 = d := by omega
      rw [Nat.toDigits_of_base_le (by decide) (by omega), hdiv, hmod, ih]

theorem value_lt_pow (hb : 0 < radix) (digits : List Char) :
    value radix digits < radix ^ digits.length := by
  induction digits using List.reverseRecOn with
  | nil => exact Nat.one_pos
  | append_singleton init c ih =>
    have hc : (digit? radix c).getD 0 < radix := by
      cases h : digit? radix c with
      | none => exact hb
      | some d => exact lt_of_digit? h
    rw [value_append_singleton, List.length_append, List.length_singleton, Nat.pow_succ]
    calc value radix init * radix + (digit? radix c).getD 0
        < (value radix init + 1) * radix := by
          rw [Nat.succ_mul]
          exact Nat.add_lt_add_left hc _
      _ ≤ radix ^ init.length * radix := Nat.mul_le_mul_right radix ih

/-! ## What a reader takes -/

theorem takeWhile_dropWhile_digits (radix : Nat) (chars : List Char) :
    chars = chars.takeWhile (isDigit radix) ++ chars.dropWhile (isDigit radix) ∧
      (∀ c ∈ chars.takeWhile (isDigit radix), isDigit radix c = true) ∧
      Stops radix (chars.dropWhile (isDigit radix)) := by
  refine ⟨List.takeWhile_append_dropWhile.symm, List.all_eq_true.1 List.all_takeWhile, ?_⟩
  intro c hc
  have hnot := List.head?_dropWhile_not (isDigit radix) chars
  rw [Option.mem_def.1 hc] at hnot
  simpa using hnot

/-- Where a text is known to be digits and a rest that stops, it is cut there. -/
theorem takeWhile_dropWhile_append {digits rest : List Char}
    (hdigits : ∀ c ∈ digits, isDigit radix c = true) (hstops : Stops radix rest) :
    (digits ++ rest).takeWhile (isDigit radix) = digits ∧
      (digits ++ rest).dropWhile (isDigit radix) = rest := by
  rw [List.takeWhile_append_of_pos hdigits, List.dropWhile_append_of_pos hdigits]
  cases rest with
  | nil => exact ⟨List.append_nil _, rfl⟩
  | cons c rest =>
    have hc : ¬ isDigit radix c = true := by simp [hstops c rfl]
    rw [List.takeWhile_cons_of_neg hc, List.dropWhile_cons_of_neg hc]
    exact ⟨List.append_nil _, rfl⟩

theorem number?_eq_some_iff {chars : List Char} {n : Nat} :
    number? radix chars = some n ↔
      chars ≠ [] ∧ (∀ c ∈ chars, isDigit radix c = true) ∧ value radix chars = n := by
  rw [number?, Option.ite_none_right_eq_some, List.all_eq_true, Option.some.injEq, and_assoc]

/-- A bounded number has any digits, with or without a plus sign before them. -/
theorem bounded?_eq_some_iff {bound n : Nat} {text : String} :
    bounded? bound text = some n ↔
      ∃ digits, (text.toList = digits ∨ text.toList = '+' :: digits) ∧ digits ≠ [] ∧
        (∀ c ∈ digits, isDigit 10 c = true) ∧ value 10 digits = n ∧ n ≤ bound := by
  have hnumber (digits : List Char) : (number? 10 digits).filter (· ≤ bound) = some n ↔
      digits ≠ [] ∧ (∀ c ∈ digits, isDigit 10 c = true) ∧ value 10 digits = n ∧ n ≤ bound := by
    rw [Option.filter_eq_some_iff, number?_eq_some_iff, decide_eq_true_iff]
    simp only [and_assoc]
  unfold bounded?
  split
  · rename_i rest hplus
    rw [hnumber, hplus]
    refine ⟨fun h => ⟨rest, .inr rfl, h⟩, ?_⟩
    rintro ⟨digits, rfl | hrest, hne, hdigits, hvalue⟩
    · exact absurd (hdigits '+' List.mem_cons_self) (by decide)
    · cases hrest
      exact ⟨hne, hdigits, hvalue⟩
  · rename_i hplus
    rw [hnumber]
    refine ⟨fun h => ⟨_, .inl rfl, h⟩, ?_⟩
    rintro ⟨digits, rfl | hrest, h⟩
    · exact h
    · exact absurd hrest (hplus digits)

theorem le_of_bounded? {bound n : Nat} {text : String} (h : bounded? bound text = some n) :
    n ≤ bound := by
  obtain ⟨-, -, -, -, -, hn⟩ := bounded?_eq_some_iff.1 h
  exact hn

theorem bounded?_toString {bound n : Nat} (h : n ≤ bound) :
    bounded? bound (toString n) = some n := by
  rw [bounded?_eq_some_iff, Nat.toString_eq_ofList_toDigits, String.toList_ofList]
  exact ⟨_, .inl rfl, Nat.toDigits_ne_nil,
    fun _ => isDigit_of_mem_toDigits (by decide) (by decide),
    value_toDigits (by decide) (by decide) n, h⟩

end PeerCensus.Numeral
