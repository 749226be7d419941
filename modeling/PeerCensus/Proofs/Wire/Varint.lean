import Mathlib.Algebra.Group.Nat.Defs
import PeerCensus.Proofs.Stream.Reading
import PeerCensus.Stream.Varint

/-!
# Varints read back

The shortest varint of a number below `2 ^ 64` is read as that number, whatever follows it. A reader
of a stream takes exactly the bytes that make up the varint, and finds in them what the decoder of
bytes at hand finds.

Results:
* `decode_encode_append`: writing a number and reading it gives the number and its size.
* `takes_read`, `starves_read`: which bytes of a stream are taken for a varint.
-/

namespace PeerCensus.Varint

/-! ## Decoding -/

theorem advance_overflow {index value : Nat} {b : UInt8} (h : index + 1 = maxLength)
    (hb : 1 < b.toNat) : advance index value b = .overflow :=
  if_pos ⟨h, hb⟩

theorem advance_eq {index value : Nat} {b : UInt8} (h : ¬ (index + 1 = maxLength ∧ 1 < b.toNat)) :
    advance index value b =
      if b.toNat < 128 then .complete (value + b.toNat % 128 * 128 ^ index)
      else .more (value + b.toNat % 128 * 128 ^ index) :=
  if_neg h

/-- No byte after the last possible one is asked for. -/
theorem succ_lt_of_advance_more {index value value' : Nat} {b : UInt8} (hi : index < maxLength)
    (h : advance index value b = .more value') : index + 1 < maxLength := by
  by_cases hover : index + 1 = maxLength ∧ 1 < b.toNat
  · rw [advance_overflow hover.1 hover.2] at h
    cases h
  · rw [advance_eq hover] at h
    split at h
    · cases h
    · omega

theorem le_decodeFrom {bytes : Bytes} {index value v n : Nat}
    (h : decodeFrom index value bytes = .ok (v, n)) : index < n ∧ n ≤ index + bytes.length := by
  induction bytes generalizing index value with
  | nil => cases h
  | cons b bytes ih =>
    simp only [decodeFrom] at h
    split at h
    · cases h
      simp
    · have := ih h
      simp only [List.length_cons]
      omega
    · cases h

/-- An incomplete varint has not all the bytes that a varint may have. -/
theorem length_lt_of_truncated {bytes : Bytes} {index value : Nat} (hi : index < maxLength)
    (h : decodeFrom index value bytes = .error .truncated) :
    index + bytes.length < maxLength := by
  induction bytes generalizing index value with
  | nil => exact hi
  | cons b bytes ih =>
    cases hb : advance index value b with
    | complete value' => simp [decodeFrom, hb] at h
    | more value' =>
      simp only [decodeFrom, hb] at h
      have := ih (succ_lt_of_advance_more hi hb) h
      rw [List.length_cons]
      omega
    | overflow => simp [decodeFrom, hb] at h

/-- A complete varint is one without the bytes after it. -/
theorem decodeFrom_take {bytes : Bytes} {index value v n : Nat}
    (h : decodeFrom index value bytes = .ok (v, n)) :
    decodeFrom index value (bytes.take (n - index)) = .ok (v, n) := by
  induction bytes generalizing index value with
  | nil => cases h
  | cons b bytes ih =>
    obtain ⟨hlt, -⟩ := le_decodeFrom h
    rw [show n - index = (n - (index + 1)) + 1 by omega, List.take_succ_cons]
    simp only [decodeFrom] at h ⊢
    split at h
    · exact h
    · exact ih h
    · cases h

/-- The bytes of a complete varint are one, without the bytes after it. -/
theorem decode_take {bytes : Bytes} {v n : Nat} (h : decode bytes = .ok (v, n)) :
    decode (bytes.take n) = .ok (v, (bytes.take n).length) := by
  have length : (bytes.take n).length = n :=
    List.length_take_of_le (by simpa using (le_decodeFrom h).2)
  rw [length]
  exact decodeFrom_take h

/-! ## Encoding -/

theorem toNat_toUInt8 {n : Nat} (h : n < 256) : n.toUInt8.toNat = n :=
  UInt8.toNat_ofNat_of_lt h

/-- A number is made of its last seven bits and the others. -/
theorem mod_add_div_mul_pow (v index : Nat) :
    v % 128 * 128 ^ index + v / 128 * 128 ^ (index + 1) = v * 128 ^ index := by
  rw [Nat.pow_succ, Nat.mul_comm (128 ^ index) 128, ← Nat.mul_assoc, ← Nat.add_mul,
    Nat.mul_comm (v / 128) 128, Nat.mod_add_div]

/-- Reading on from a varint that stands at `index`. -/
theorem decodeFrom_encode_append (v index value : Nat) (rest : Bytes) (hi : index < maxLength)
    (hv : v * 128 ^ index < 2 ^ 64) :
    decodeFrom index value (encode v ++ rest) =
      .ok (value + v * 128 ^ index, index + (encode v).length) := by
  induction v using encode.induct generalizing index value with
  | case1 v small =>
    have byte : v.toUInt8.toNat = v := toNat_toUInt8 (by omega)
    have fits : ¬ (index + 1 = maxLength ∧ 1 < v.toUInt8.toNat) := by
      rw [byte]
      rintro ⟨hlast, hv1⟩
      obtain rfl : index = 9 := by simp only [maxLength] at hlast; omega
      omega
    rw [encode, if_pos small, List.singleton_append, decodeFrom, advance_eq fits, byte,
      if_pos small, Nat.mod_eq_of_lt small]
    rfl
  | case2 v large ih =>
    have byte : (v % 128 + 128).toUInt8.toNat = v % 128 + 128 := toNat_toUInt8 (by omega)
    have notLast : index + 1 ≠ maxLength := by
      intro hlast
      obtain rfl : index = 9 := by simp only [maxLength] at hlast; omega
      omega
    have group := mod_add_div_mul_pow v index
    have next := ih (index + 1) (value + v % 128 * 128 ^ index) (by omega) (by omega)
    have low : (v % 128 + 128) % 128 = v % 128 := by omega
    rw [encode, if_neg large, List.cons_append, decodeFrom, advance_eq (fun h => notLast h.1), byte,
      if_neg (by omega), low]
    dsimp only
    rw [next, Nat.add_assoc value, group, List.length_cons]
    congr 2
    omega

/-- Writing a number and reading it gives the number and its size. -/
theorem decode_encode_append {v : Nat} (hv : v < 2 ^ 64) (rest : Bytes) :
    decode (encode v ++ rest) = .ok (v, (encode v).length) := by
  have := decodeFrom_encode_append v 0 0 rest (by decide) (by simpa using hv)
  simpa [decode] using this

theorem decode_encode {v : Nat} (hv : v < 2 ^ 64) :
    decode (encode v) = .ok (v, (encode v).length) := by
  simpa using decode_encode_append hv []

/-! ## Reading from a stream -/

/-- What the reader does with the byte that it has been given, if there was one. -/
def proceed (index value : Nat) : Option UInt8 → Reader ReadError Nat
  | none => Reader.fail (if index = 0 then .closed else .truncated)
  | some b =>
    match advance index value b with
    | .complete value => pure value
    | .more value => readFrom (index + 1) value
    | .overflow => Reader.fail .overflow

theorem readFrom_eq {index value : Nat} (hi : index < maxLength) :
    readFrom index value = Reader.mapError .stream Reader.byte? >>= proceed index value := by
  rw [readFrom, if_pos hi]
  rfl

theorem takes_byte (b : UInt8) :
    (Reader.mapError ReadError.stream Reader.byte?).Takes [b] (.ok (some b)) :=
  (Reader.takes_byte? b).mapError _

theorem takes_readFrom {bytes : Bytes} {index value v : Nat} (hi : index < maxLength)
    (h : decodeFrom index value bytes = .ok (v, index + bytes.length)) :
    (readFrom index value).Takes bytes (.ok v) := by
  induction bytes generalizing index value with
  | nil => cases h
  | cons b bytes ih =>
    rw [readFrom_eq hi]
    refine (takes_byte b).bind_cons ?_
    cases hb : advance index value b with
    | complete value' =>
      simp only [decodeFrom, hb, List.length_cons, Except.ok.injEq, Prod.mk.injEq] at h
      obtain rfl : bytes = [] := List.length_eq_zero_iff.1 (by omega)
      simp only [proceed, hb, h.1]
      exact Reader.takes_pure v
    | more value' =>
      simp only [decodeFrom, hb, List.length_cons] at h
      simp only [proceed, hb]
      exact ih (succ_lt_of_advance_more hi hb) (by rw [h]; congr 2; omega)
    | overflow => simp [decodeFrom, hb] at h

theorem starves_readFrom {bytes : Bytes} {index value : Nat} (hi : index < maxLength)
    (h : decodeFrom index value bytes = .error .truncated) :
    (readFrom index value).Starves bytes
      (Ending.halt (if index + bytes.length = 0 then .closed else .truncated) .stream) := by
  induction bytes generalizing index value with
  | nil =>
    rw [readFrom_eq hi]
    exact Reader.starves_byte? rfl
  | cons b bytes ih =>
    rw [readFrom_eq hi]
    refine (takes_byte b).bind_cons_starves ?_
    cases hb : advance index value b with
    | complete value' => simp [decodeFrom, hb] at h
    | more value' =>
      simp only [decodeFrom, hb] at h
      have := ih (succ_lt_of_advance_more hi hb) h
      rw [if_neg (by omega)] at this
      rw [List.length_cons, if_neg (by omega)]
      simpa only [proceed, hb] using this
    | overflow => simp [decodeFrom, hb] at h

/-- A number that is too large is refused at the byte that makes it so. -/
theorem takes_readFrom_overflow {bytes : Bytes} {index value : Nat} (hi : index < maxLength)
    (h : decodeFrom index value bytes = .error .overflow) :
    ∃ taken, taken <+: bytes ∧ index + taken.length ≤ maxLength ∧
      (readFrom index value).Takes taken (.error .overflow) := by
  induction bytes generalizing index value with
  | nil => cases h
  | cons b bytes ih =>
    rw [readFrom_eq hi]
    cases hb : advance index value b with
    | complete value' => simp [decodeFrom, hb] at h
    | more value' =>
      simp only [decodeFrom, hb] at h
      obtain ⟨taken, hp, hlength, ht⟩ := ih (succ_lt_of_advance_more hi hb) h
      refine ⟨b :: taken, List.cons_prefix_cons.2 ⟨rfl, hp⟩, ?_, (takes_byte b).bind_cons ?_⟩
      · rw [List.length_cons]
        omega
      · simpa only [proceed, hb] using ht
    | overflow =>
      refine ⟨[b], List.cons_prefix_cons.2 ⟨rfl, List.nil_prefix⟩, hi,
        (takes_byte b).bind_cons ?_⟩
      simp only [proceed, hb]
      exact Reader.takes_fail _

/-- The bytes of a complete varint are taken for the number they stand for. -/
theorem takes_read {bytes : Bytes} {v : Nat} (h : decode bytes = .ok (v, bytes.length)) :
    read.Takes bytes (.ok v) :=
  takes_readFrom (by decide) (by rwa [Nat.zero_add])

/-- Of an incomplete varint nothing is left, and more is wanted. -/
theorem starves_read {bytes : Bytes} (h : decode bytes = .error .truncated) :
    read.Starves bytes
      (Ending.halt (if bytes = [] then .closed else .truncated) .stream) := by
  have := starves_readFrom (by decide) h
  simp only [Nat.zero_add, List.length_eq_zero_iff] at this
  exact this

theorem takes_read_overflow {bytes : Bytes} (h : decode bytes = .error .overflow) :
    ∃ taken, taken <+: bytes ∧ taken.length ≤ maxLength ∧ read.Takes taken (.error .overflow) := by
  have := takes_readFrom_overflow (by decide) h
  simp only [Nat.zero_add] at this
  exact this

end PeerCensus.Varint
