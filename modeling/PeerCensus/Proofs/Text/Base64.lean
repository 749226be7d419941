import PeerCensus.Proofs.Text.Base58
import PeerCensus.Text.Base64
import PeerCensus.Text.Blank

/-!
# Base64 read back

The digits of a text have values below sixty-four, and three bytes are four of them again. The text
of a byte string is therefore read as these bytes, whatever their number.

Results:
* `decode_encode`: a text is read as the bytes that it was written for.
* `isBlank_of_mem_encodeChars`: a text has no white space in it.
-/

namespace PeerCensus.Base64

/-! ## Values of digits -/

/-- The values of the digits of `bytes`. -/
def values : Bytes → List Nat
  | [] => []
  | [a] => [a.toNat / 4, a.toNat % 4 * 16]
  | [a, b] => [a.toNat / 4, a.toNat % 4 * 16 + b.toNat / 16, b.toNat % 16 * 4]
  | a :: b :: c :: rest =>
    a.toNat / 4 :: (a.toNat % 4 * 16 + b.toNat / 16) :: (b.toNat % 16 * 4 + c.toNat / 64) ::
      c.toNat % 64 :: values rest

theorem encodeChars_eq_map (bytes : Bytes) : encodeChars bytes = (values bytes).map digit := by
  fun_induction values bytes with
  | case1 => rfl
  | case2 a => rfl
  | case3 a b => rfl
  | case4 a b c rest ih =>
    rw [encodeChars, ih]
    rfl

theorem lt_of_mem_values {bytes : Bytes} {d : Nat} (h : d ∈ values bytes) : d < 64 := by
  fun_induction values bytes with
  | case1 => cases h
  | case2 a =>
    have ha := a.toNat_lt
    simp only [List.mem_cons, List.not_mem_nil, or_false] at h
    omega
  | case3 a b =>
    have ha := a.toNat_lt
    have hb := b.toNat_lt
    simp only [List.mem_cons, List.not_mem_nil, or_false] at h
    omega
  | case4 a b c rest ih =>
    have ha := a.toNat_lt
    have hb := b.toNat_lt
    have hc := c.toNat_lt
    simp only [List.mem_cons] at h
    rcases h with h | h | h | h | h
    · omega
    · omega
    · omega
    · omega
    · exact ih h

theorem toUInt8_of_eq {n : Nat} {b : UInt8} (h : n = b.toNat) : n.toUInt8 = b := by
  rw [h]
  exact UInt8.ofNat_toNat

theorem decodeValues_values (bytes : Bytes) : decodeValues (values bytes) = some bytes := by
  fun_induction values bytes with
  | case1 => rfl
  | case2 a =>
    have first : (a.toNat / 4 * 4 + a.toNat % 4 * 16 / 16).toUInt8 = a := toUInt8_of_eq (by omega)
    rw [decodeValues, if_pos (by omega), first]
  | case3 a b =>
    have hb := b.toNat_lt
    have first : (a.toNat / 4 * 4 + (a.toNat % 4 * 16 + b.toNat / 16) / 16).toUInt8 = a :=
      toUInt8_of_eq (by omega)
    have second : ((a.toNat % 4 * 16 + b.toNat / 16) % 16 * 16 + b.toNat % 16 * 4 / 4).toUInt8 =
        b := toUInt8_of_eq (by omega)
    rw [decodeValues, if_pos (by omega), first, second]
  | case4 a b c rest ih =>
    have hb := b.toNat_lt
    have hc := c.toNat_lt
    have first : (a.toNat / 4 * 4 + (a.toNat % 4 * 16 + b.toNat / 16) / 16).toUInt8 = a :=
      toUInt8_of_eq (by omega)
    have second : ((a.toNat % 4 * 16 + b.toNat / 16) % 16 * 16 +
        (b.toNat % 16 * 4 + c.toNat / 64) / 4).toUInt8 = b := toUInt8_of_eq (by omega)
    have third : ((b.toNat % 16 * 4 + c.toNat / 64) % 4 * 64 + c.toNat % 64).toUInt8 = c :=
      toUInt8_of_eq (by omega)
    rw [decodeValues, ih, first, second, third]
    rfl

/-! ## Characters -/

theorem idxOf?_digit {d : Nat} (h : d < 64) : alphabet.idxOf? (digit d) = some d := by
  have all : ∀ d : Fin 64, alphabet.idxOf? (digit d) = some d.val := by decide +kernel
  exact all ⟨d, h⟩

theorem isBlank_of_mem_encodeChars {bytes : Bytes} {c : Char} (h : c ∈ encodeChars bytes) :
    Text.isBlank c = false := by
  rw [encodeChars_eq_map] at h
  obtain ⟨d, hd, rfl⟩ := List.mem_map.1 h
  have all : ∀ d : Fin 64, Text.isBlank (digit d) = false := by decide +kernel
  exact all ⟨d, lt_of_mem_values hd⟩

/-- A text is read as the bytes that it was written for. -/
theorem decode_encode (bytes : Bytes) : decode (encode bytes) = some bytes := by
  rw [decode, encode, encodeChars_eq_map, String.toList_ofList,
    Text.mapM_map fun _ hd => idxOf?_digit (lt_of_mem_values hd)]
  exact decodeValues_values bytes

end PeerCensus.Base64
