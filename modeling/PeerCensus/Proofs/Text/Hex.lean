import PeerCensus.Chain.Fork
import PeerCensus.Proofs.Text.Blank

/-!
# Hexadecimal text in either case

A digit counts whatever its case, so a text of digits is read as the bytes whose lower-case text it
becomes when all its letters are made small, and nothing else is read. The `x` of the marker is not
a digit, so that a marker is never part of the digits.

Results:
* `digitValue?_eq_some_iff`: which characters are a digit.
* `decodeChars_eq_some_iff`: which texts are read as some bytes.
* `decodeChars_dropMarker_eq_some_iff`, `decodeChars_trimChars_eq_some_iff`: the same with a marker
  in front, and with white space around it.
* `parseFixed_eq_ok_iff`: which texts are read as a value of a fixed size.
-/

namespace PeerCensus.Hex

/-! ## Digits -/

theorem lt_of_digitValue? {c : Char} {n : Nat} (h : digitValue? c = some n) : c.toNat < 103 := by
  have hle (a b : Char) : a ≤ b ↔ a.toNat ≤ b.toNat := Iff.rfl
  simp only [digitValue?, hle, Char.reduceToNat] at h
  split at h
  · omega
  split at h
  · omega
  split at h
  · omega
  · cases h

theorem digit_of_digitValue? {c : Char} {n : Nat} (h : digitValue? c = some n) :
    n < 16 ∧ c.toLower = digit n := by
  have small : ∀ m < 103, (digitValue? (Char.ofNat m)).all fun n =>
      n < 16 ∧ (Char.ofNat m).toLower = digit n := by decide +kernel
  have hc := small c.toNat (lt_of_digitValue? h)
  rw [Char.ofNat_toNat, h] at hc
  simpa using hc

theorem digitValue?_of_toLower {c : Char} {n : Nat} (hn : n < 16) (h : c.toLower = digit n) :
    digitValue? c = some n := by
  have hc : c.toNat < 103 := by
    unfold Char.toLower at h
    split at h
    · rename_i hupper
      have : c.toNat ≤ 90 := hupper.2
      omega
    · have digits : ∀ n < 16, (digit n).toNat < 103 := by decide +kernel
      rw [h]
      exact digits n hn
  have small : ∀ m < 103, ∀ n < 16,
      (Char.ofNat m).toLower = digit n → digitValue? (Char.ofNat m) = some n := by decide +kernel
  have hread := small c.toNat hc n hn
  rw [Char.ofNat_toNat] at hread
  exact hread h

theorem digitValue?_eq_some_iff {c : Char} {n : Nat} :
    digitValue? c = some n ↔ n < 16 ∧ c.toLower = digit n :=
  ⟨digit_of_digitValue?, fun h => digitValue?_of_toLower h.1 h.2⟩

/-! ## Bytes -/

theorem byte_digits (b : UInt8) : b.toNat / 16 < 16 ∧ b.toNat % 16 < 16 ∧
    (16 * (b.toNat / 16) + b.toNat % 16).toUInt8 = b := by
  have hb := b.toNat_lt
  refine ⟨by omega, by omega, ?_⟩
  rw [Nat.div_add_mod]
  exact UInt8.ofNat_toNat

theorem byte_of_digits {h l : Nat} (hh : h < 16) (hl : l < 16) :
    (16 * h + l).toUInt8.toNat / 16 = h ∧ (16 * h + l).toUInt8.toNat % 16 = l := by
  have value : (16 * h + l).toUInt8.toNat = 16 * h + l := by
    rw [UInt8.toNat_ofNat']
    omega
  rw [value]
  omega

theorem encodeChars_cons (b : UInt8) (bytes : Bytes) : encodeChars (b :: bytes) =
    digit (b.toNat / 16) :: digit (b.toNat % 16) :: encodeChars bytes := rfl

/-- A text is read as the bytes whose text it is when its letters are made small. -/
theorem decodeChars_eq_some_iff {chars : List Char} {bytes : Bytes} :
    decodeChars chars = some bytes ↔ chars.map Char.toLower = encodeChars bytes := by
  fun_induction decodeChars chars generalizing bytes with
  | case1 =>
    cases bytes with
    | nil => simp [encodeChars]
    | cons b bytes => simp [encodeChars]
  | case2 c =>
    cases bytes with
    | nil => simp [encodeChars]
    | cons b bytes => simp [encodeChars]
  | case3 hi lo rest ih =>
    simp only [bind, Option.bind_eq_some_iff, pure]
    cases bytes with
    | nil => simp [encodeChars]
    | cons b bytes =>
      obtain ⟨hhi, hlo, hb⟩ := byte_digits b
      rw [encodeChars_cons, List.map_cons, List.map_cons, List.cons.injEq, List.cons.injEq]
      constructor
      · rintro ⟨h, hh, l, hl, tail, htail, heq⟩
        cases heq
        obtain ⟨hh, hhi⟩ := digitValue?_eq_some_iff.1 hh
        obtain ⟨hl, hlo⟩ := digitValue?_eq_some_iff.1 hl
        obtain ⟨high, low⟩ := byte_of_digits hh hl
        rw [high, low]
        exact ⟨hhi, hlo, ih.1 htail⟩
      · rintro ⟨hhi', hlo', hrest⟩
        exact ⟨_, digitValue?_eq_some_iff.2 ⟨hhi, hhi'⟩, _,
          digitValue?_eq_some_iff.2 ⟨hlo, hlo'⟩, _, ih.2 hrest, by rw [hb]⟩

/-- Every character of a text of digits is a digit. -/
theorem isSome_digitValue?_of_mem {chars : List Char} {bytes : Bytes}
    (h : decodeChars chars = some bytes) {c : Char} (hc : c ∈ chars) : (digitValue? c).isSome := by
  fun_induction decodeChars chars generalizing bytes with
  | case1 => cases hc
  | case2 c => cases h
  | case3 hi lo rest ih =>
    simp only [bind, Option.bind_eq_some_iff] at h
    obtain ⟨h, hh, l, hl, tail, htail, -⟩ := h
    rcases List.mem_cons.1 hc with rfl | hc
    · rw [hh, Option.isSome_some]
    rcases List.mem_cons.1 hc with rfl | hc
    · rw [hl, Option.isSome_some]
    · exact ih htail hc

/-! ## Markers -/

/-- The texts of `bytes`: two digits of either case for each byte, with or without `0x` before
them. -/
def Spells (chars : List Char) (bytes : Bytes) : Prop :=
  ∃ digits, (chars = digits ∨ chars = '0' :: 'x' :: digits) ∧
    digits.map Char.toLower = encodeChars bytes

/-- There is no marker in front of digits. -/
theorem dropMarker_of_decodeChars {chars : List Char} {bytes : Bytes}
    (h : decodeChars chars = some bytes) : dropMarker chars = chars := by
  unfold dropMarker
  split
  · have hx := isSome_digitValue?_of_mem h (List.mem_cons_of_mem _ List.mem_cons_self)
    exact absurd hx (by decide)
  · rfl

theorem decodeChars_dropMarker_eq_some_iff {chars : List Char} {bytes : Bytes} :
    decodeChars (dropMarker chars) = some bytes ↔ Spells chars bytes := by
  constructor
  · intro h
    refine ⟨dropMarker chars, ?_, decodeChars_eq_some_iff.1 h⟩
    unfold dropMarker
    split
    · exact .inr rfl
    · exact .inl rfl
  · rintro ⟨digits, rfl | rfl, h⟩
    · have hread := decodeChars_eq_some_iff.2 h
      rw [dropMarker_of_decodeChars hread, hread]
    · exact decodeChars_eq_some_iff.2 h

/-- Each character of a text of bytes is a digit or that of the marker. -/
theorem Spells.isDigit_or {chars : List Char} {bytes : Bytes} (h : Spells chars bytes) {c : Char}
    (hc : c ∈ chars) : (digitValue? c).isSome ∨ c = 'x' := by
  obtain ⟨digits, rfl | rfl, h⟩ := h
  · exact .inl (isSome_digitValue?_of_mem (decodeChars_eq_some_iff.2 h) hc)
  · rcases List.mem_cons.1 hc with rfl | hc
    · exact .inl (by decide)
    rcases List.mem_cons.1 hc with rfl | hc
    · exact .inr rfl
    · exact .inl (isSome_digitValue?_of_mem (decodeChars_eq_some_iff.2 h) hc)

theorem digitValue?_of_isBlank {c : Char} (h : Text.isBlank c = true) : digitValue? c = none := by
  have small : ∀ m < 103, Text.isBlank (Char.ofNat m) = true →
      digitValue? (Char.ofNat m) = none := by
    decide +kernel
  cases hn : digitValue? c with
  | none => rfl
  | some n =>
    have hc := small c.toNat (lt_of_digitValue? hn)
    rw [Char.ofNat_toNat] at hc
    rw [← hn, hc h]

/-- A text of bytes has no white space in it. -/
theorem Spells.bare {chars : List Char} {bytes : Bytes} (h : Spells chars bytes) :
    Text.Bare chars := by
  apply Text.bare_of_forall
  intro c hc
  rw [Bool.eq_false_iff]
  intro hblank
  rcases h.isDigit_or hc with hdigit | rfl
  · rw [digitValue?_of_isBlank hblank] at hdigit
    cases hdigit
  · exact absurd hblank (by decide)

/-! ## Texts with white space around them -/

/-- The texts of `bytes` with any white space around them. -/
def SpellsPadded (chars : List Char) (bytes : Bytes) : Prop :=
  ∃ core, Text.Pads chars core ∧ Spells core bytes

theorem decodeChars_trimChars_eq_some_iff {chars : List Char} {bytes : Bytes} :
    decodeChars (dropMarker (Text.trimChars chars)) = some bytes ↔ SpellsPadded chars bytes := by
  rw [decodeChars_dropMarker_eq_some_iff]
  constructor
  · intro h
    exact ⟨_, Text.pads_trimChars chars, h⟩
  · rintro ⟨core, hpads, h⟩
    rw [Text.trimChars_of_pads hpads h.bare]
    exact h

theorem ofList?_eq_some_iff {n : Nat} {bytes : Bytes} {value : FixedBytes n} :
    FixedBytes.ofList? n bytes = some value ↔ bytes = value.toList := by
  unfold FixedBytes.ofList?
  constructor
  · intro h
    split at h
    · cases h
      rfl
    · cases h
  · rintro rfl
    rw [dif_pos value.length_toList]

/-- A text is read as a value of a fixed size just where it is one of its texts. -/
theorem parseFixed_eq_ok_iff {n : Nat} {text : String} {value : FixedBytes n} :
    parseFixed n text = .ok value ↔ SpellsPadded text.toList value.toList := by
  have hread : (decodeChars (dropMarker (Text.trimChars text.toList))).bind (FixedBytes.ofList? n) =
      some value ↔ SpellsPadded text.toList value.toList := by
    rw [Option.bind_eq_some_iff, ← decodeChars_trimChars_eq_some_iff]
    constructor
    · rintro ⟨bytes, hbytes, hvalue⟩
      rw [hbytes, ofList?_eq_some_iff.1 hvalue]
    · intro h
      exact ⟨_, h, ofList?_eq_some_iff.2 rfl⟩
  rw [← hread]
  unfold parseFixed
  split
  · rename_i bytes hbytes
    rw [hbytes, Except.ok.injEq, Option.some.injEq]
  · rename_i hnone
    rw [hnone]
    simp

end PeerCensus.Hex
