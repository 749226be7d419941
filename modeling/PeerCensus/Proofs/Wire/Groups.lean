import Mathlib.Tactic.IntervalCases
import Mathlib.Tactic.Ring
import PeerCensus.Proofs.Wire.Varint

/-!
# Which bytes are a varint

Bytes spell a number when all but the last have their high bit set, and the number is made of the
lower seven bits of each, the first byte holding the lowest. The decoder of bytes at hand finds a
number exactly where at most ten bytes spell one of 64 bits; padded forms are found like the
shortest one. A stream that is then closed is read like the bytes that it delivers, and no byte
after the varint is taken.

Results:
* `decode_eq_ok_iff`, `decode_eq_truncated_iff`, `decode_eq_overflow_iff`: what the decoder answers.
* `read_of_closed`: the reader of a stream agrees with it.
* `codec_exact`: what is written, what is decoded, and what is read.
-/

namespace PeerCensus.Varint

/-- The number that bytes spell: all of them but the last have their high bit set, and each adds
its other seven bits above those of the bytes before it. -/
inductive Spells : Bytes → Nat → Prop
  | last {b : UInt8} (h : b.toNat < 128) : Spells [b] b.toNat
  | more {b : UInt8} {bytes : Bytes} {v : Nat} (h : 128 ≤ b.toNat) (rest : Spells bytes v) :
    Spells (b :: bytes) (b.toNat % 128 + 128 * v)

/-- The bytes begin with the `n` bytes of a varint of the 64-bit number `v`. -/
def Begins (bytes : Bytes) (v n : Nat) : Prop :=
  ∃ varint, varint <+: bytes ∧ varint.length = n ∧ n ≤ maxLength ∧ Spells varint v ∧ v < 2 ^ 64

/-- The bytes end before the varint does, and there may be more of it. -/
def Unfinished (bytes : Bytes) : Prop :=
  bytes.length < maxLength ∧ ∀ b ∈ bytes, 128 ≤ b.toNat

/-- The answer to all the bytes of a stream that is then closed. -/
def answer (bytes : Bytes) : Except ReadError Nat :=
  if bytes = [] then .error .closed
  else ((decode bytes).map Prod.fst).mapError .ofFault

/-! ## What bytes spell -/

theorem Spells.length_pos {bytes : Bytes} {v : Nat} (h : Spells bytes v) : 0 < bytes.length := by
  cases h <;> exact Nat.succ_pos _

/-- A last byte may have any value but for the tenth, which has room for one bit. -/
theorem last_fits_iff {index n : Nat} (hi : index < maxLength) (hn : n < 128) :
    n * 128 ^ index < 2 ^ 64 ↔ ¬ (index + 1 = maxLength ∧ 1 < n) := by
  simp only [maxLength] at hi ⊢
  interval_cases index <;> omega

/-- Whether a number fits is decided by its higher groups, since `128 ^ (index + 1)` divides
`2 ^ 64`. -/
theorem more_fits_iff {index r w : Nat} (hi : index + 1 < maxLength) (hr : r < 128) :
    (r + 128 * w) * 128 ^ index < 2 ^ 64 ↔ w * 128 ^ (index + 1) < 2 ^ 64 := by
  simp only [maxLength] at hi
  have : index < 9 := by omega
  interval_cases index <;> omega

/-- A number that bytes spell is found in them, also where they stand behind `index` other bytes. -/
theorem decodeFrom_of_spells {varint : Bytes} {v index : Nat} (h : Spells varint v) (value : Nat)
    (rest : Bytes) (hlength : index + varint.length ≤ maxLength) (hv : v * 128 ^ index < 2 ^ 64) :
    decodeFrom index value (varint ++ rest) =
      .ok (value + v * 128 ^ index, index + varint.length) := by
  induction h generalizing index value with
  | @last b small =>
    have fits := (last_fits_iff hlength small).1 hv
    rw [List.singleton_append, decodeFrom, advance_eq fits, if_pos small, Nat.mod_eq_of_lt small]
    rfl
  | @more b bytes w large spells ih =>
    have := spells.length_pos
    rw [List.length_cons] at hlength ⊢
    have hi : index + 1 < maxLength := by omega
    have fits := (more_fits_iff hi (Nat.mod_lt b.toNat (by decide))).1 hv
    have next := ih (value + b.toNat % 128 * 128 ^ index) (by omega) fits
    rw [List.cons_append, decodeFrom, advance_eq (by omega), if_neg (Nat.not_lt.2 large)]
    dsimp only
    rw [next, Nat.add_assoc value, Nat.add_mul, Nat.pow_succ]
    congr 2
    · congr 2
      ring
    · omega

/-- Where a number is found, bytes spell it. -/
theorem spells_of_decodeFrom {bytes : Bytes} {index value u n : Nat} (hi : index < maxLength)
    (h : decodeFrom index value bytes = .ok (u, n)) :
    ∃ varint v, varint <+: bytes ∧ index + varint.length = n ∧ n ≤ maxLength ∧
      Spells varint v ∧ v * 128 ^ index < 2 ^ 64 := by
  induction bytes generalizing index value with
  | nil => cases h
  | cons b bytes ih =>
    by_cases hover : index + 1 = maxLength ∧ 1 < b.toNat
    · rw [decodeFrom, advance_overflow hover.1 hover.2] at h
      cases h
    · rw [decodeFrom, advance_eq hover] at h
      rcases Nat.lt_or_ge b.toNat 128 with small | large
      · rw [if_pos small] at h
        cases h
        exact ⟨[b], b.toNat, List.cons_prefix_cons.2 ⟨rfl, List.nil_prefix⟩, rfl, hi, .last small,
          (last_fits_iff hi small).2 hover⟩
      · rw [if_neg (Nat.not_lt.2 large)] at h
        have hnext : index + 1 < maxLength := by omega
        obtain ⟨varint, w, hp, hlength, hn, hs, hw⟩ := ih hnext h
        refine ⟨b :: varint, _, List.cons_prefix_cons.2 ⟨rfl, hp⟩, ?_, hn, .more large hs,
          (more_fits_iff hnext (Nat.mod_lt _ (by decide))).2 hw⟩
        rw [List.length_cons]
        omega

theorem decodeFrom_eq_truncated_iff {bytes : Bytes} {index value : Nat} (hi : index < maxLength) :
    decodeFrom index value bytes = .error .truncated ↔
      index + bytes.length < maxLength ∧ ∀ b ∈ bytes, 128 ≤ b.toNat := by
  induction bytes generalizing index value with
  | nil => exact iff_of_true rfl ⟨hi, fun b hb => absurd hb List.not_mem_nil⟩
  | cons b bytes ih =>
    rw [List.length_cons, List.forall_mem_cons]
    by_cases hover : index + 1 = maxLength ∧ 1 < b.toNat
    · rw [decodeFrom, advance_overflow hover.1 hover.2]
      exact iff_of_false (fun h => by cases h) fun h => by omega
    · rw [decodeFrom, advance_eq hover]
      rcases Nat.lt_or_ge b.toNat 128 with small | large
      · rw [if_pos small]
        exact iff_of_false (fun h => by cases h) fun h => absurd h.2.1 (Nat.not_le.2 small)
      · rw [if_neg (Nat.not_lt.2 large), ← Nat.add_assoc, Nat.add_right_comm, and_iff_right large]
        exact ih (by omega)

/-! ## What the decoder answers -/

theorem decode_of_spells {varint : Bytes} {v : Nat} (h : Spells varint v)
    (hlength : varint.length ≤ maxLength) (hv : v < 2 ^ 64) (rest : Bytes) :
    decode (varint ++ rest) = .ok (v, varint.length) := by
  have found : decode (varint ++ rest) = .ok (0 + v * 128 ^ 0, 0 + varint.length) :=
    decodeFrom_of_spells h 0 rest (by omega) (by omega)
  rwa [Nat.pow_zero, Nat.mul_one, Nat.zero_add, Nat.zero_add] at found

theorem decode_eq_ok_iff {bytes : Bytes} {v n : Nat} :
    decode bytes = .ok (v, n) ↔ Begins bytes v n := by
  constructor
  · intro h
    obtain ⟨varint, w, hp, hlength, hn, hs, hw⟩ := spells_of_decodeFrom (by decide) h
    rw [Nat.zero_add] at hlength
    rw [Nat.pow_zero, Nat.mul_one] at hw
    obtain ⟨rest, rfl⟩ := hp
    rw [decode_of_spells hs (hlength ▸ hn) hw rest] at h
    cases h
    exact ⟨varint, List.prefix_append .., rfl, hn, hs, hw⟩
  · rintro ⟨varint, ⟨rest, rfl⟩, rfl, hn, hs, hv⟩
    exact decode_of_spells hs hn hv rest

theorem decode_eq_truncated_iff {bytes : Bytes} :
    decode bytes = .error .truncated ↔ Unfinished bytes := by
  rw [decode, decodeFrom_eq_truncated_iff (by decide), Nat.zero_add]
  rfl

/-- What does not begin with a varint and is not the beginning of one is taken for a number that is
too large. -/
theorem decode_eq_overflow_iff {bytes : Bytes} :
    decode bytes = .error .overflow ↔ (∀ v n, ¬ Begins bytes v n) ∧ ¬ Unfinished bytes := by
  simp only [← decode_eq_ok_iff, ← decode_eq_truncated_iff]
  rcases decode bytes with (_ | _) | ⟨v, n⟩ <;> simp

/-! ## Reading from a stream that is then closed -/

theorem answer_of_decode_ne {bytes : Bytes} (h : decode bytes ≠ .error .truncated) :
    answer bytes = ((decode bytes).map Prod.fst).mapError .ofFault := by
  refine if_neg ?_
  rintro rfl
  exact h rfl

/-- A stream that is then closed is read like the bytes it delivers. The bytes of the varint are
taken off it and no others; of what is no varint at most ten bytes are taken. -/
theorem read_of_closed {s : Source} (h : s.ending = .closed) :
    ∃ taken s', read s = ((answer s.remaining).mapError .failed, s') ∧ s.After taken s' ∧
      taken.length ≤ maxLength ∧ ∀ v n, decode s.remaining = .ok (v, n) → taken.length = n := by
  rcases hd : decode s.remaining with (_ | _) | ⟨v, n⟩
  · obtain ⟨s', hrun, ha⟩ := starves_read hd s rfl
    refine ⟨s.remaining, s', ?_, ha, (decode_eq_truncated_iff.1 hd).1.le, fun _ _ h => nomatch h⟩
    rw [hrun, h, answer, hd]
    split <;> rfl
  · obtain ⟨taken, ⟨rest, hs⟩, hlength, ht⟩ := takes_read_overflow hd
    obtain ⟨s', hrun, ha⟩ := ht s rest hs.symm
    refine ⟨taken, s', ?_, ha, hlength, fun _ _ h => nomatch h⟩
    rw [hrun, answer_of_decode_ne (by simp [hd]), hd]
    rfl
  · obtain ⟨varint, ⟨rest, hs⟩, rfl, hn, hspells, hv⟩ := decode_eq_ok_iff.1 hd
    have whole : decode varint = .ok (v, varint.length) := by
      simpa using decode_of_spells hspells hn hv []
    obtain ⟨s', hrun, ha⟩ := takes_read whole s rest hs.symm
    refine ⟨varint, s', ?_, ha, hn, fun _ _ h => by cases h; rfl⟩
    rw [hrun, answer_of_decode_ne (by simp [hd]), hd]
    rfl

/-- A varint of a 64-bit number is written behind what is in the buffer, in at most ten bytes, and
is decoded to that number, whatever follows it. The decoder finds exactly the varints that bytes
begin with, calls truncated exactly what is the beginning of one, and refuses all else as too large.
The reader of a stream that is then closed answers like the decoder, except that it calls an empty
stream closed; it takes the bytes of the varint and no others, and never more than ten. -/
theorem codec_exact :
    (∀ (v : UInt64) (buffer rest : Bytes), ∃ varint,
      appendTo buffer v.toNat = buffer ++ varint ∧ 1 ≤ varint.length ∧ varint.length ≤ 10 ∧
        decode (varint ++ rest) = .ok (v.toNat, varint.length)) ∧
    (∀ bytes v n, decode bytes = .ok (v, n) ↔ Begins bytes v n) ∧
    (∀ bytes, decode bytes = .error .truncated ↔ Unfinished bytes) ∧
    (∀ bytes, decode bytes = .error .overflow ↔
      (∀ v n, ¬ Begins bytes v n) ∧ ¬ Unfinished bytes) ∧
    ∀ s : Source, s.ending = .closed → ∃ taken s',
      read s = ((answer s.remaining).mapError .failed, s') ∧ s.After taken s' ∧
        taken.length ≤ 10 ∧ ∀ v n, decode s.remaining = .ok (v, n) → taken.length = n := by
  refine ⟨fun v buffer rest => ?_, fun _ _ _ => decode_eq_ok_iff,
    fun _ => decode_eq_truncated_iff, fun _ => decode_eq_overflow_iff, fun _ => read_of_closed⟩
  have found := decode_encode_append v.toNat_lt rest
  obtain ⟨-, -, -, short, -⟩ := decode_eq_ok_iff.1 found
  exact ⟨encode v.toNat, appendTo_eq buffer v.toNat, List.length_pos_iff.2 (encode_ne_nil _), short,
    found⟩

/-- Of a stream that delivers a padded varint of two in pieces, and then a byte of something else,
the two bytes are taken. -/
theorem codec_exact_padded :
    (Source.new [[0x82], [], [0x00, 0x7f]] .closed 0).ending = .closed ∧
      decode [0x82, 0x00, 0x7f] = .ok (2, 2) ∧
      ∃ taken s', read (Source.new [[0x82], [], [0x00, 0x7f]] .closed 0) = (.ok 2, s') ∧
        (Source.new [[0x82], [], [0x00, 0x7f]] .closed 0).After taken s' ∧ taken.length = 2 := by
  have found : decode [0x82, 0x00, 0x7f] = .ok (2, 2) := by decide
  obtain ⟨taken, s', hrun, after, -, exact_length⟩ :=
    codec_exact.2.2.2.2 (.new [[0x82], [], [0x00, 0x7f]] .closed 0) rfl
  exact ⟨rfl, found, taken, s', hrun, after, exact_length _ _ found⟩

end PeerCensus.Varint
