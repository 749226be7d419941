import PeerCensus.Proofs.Snappy.Element
import PeerCensus.Proofs.Wire.Varint
import PeerCensus.Snappy.Matcher

/-!
# Blocks read back

Whatever the table of hashes leads the search to, a match is only made of bytes that have been
compared, and it begins before the place that it is found for. So the elements found for some data
are a path through it, and the block made of them is decoded to the data.

Results:
* `Matcher.path_elements`: the elements found for data stand for it.
* `Block.decode_encode`: data of one chunk is read back from its block.
* `Block.claimedLength_of_decode`: a block that can be decoded claims the length of its data.
-/

namespace PeerCensus.Snappy

namespace Matcher

variable {input : Input}

/-! ## Bytes that have been compared -/

/-- Equal words are equal bytes. -/
theorem getElem?_of_word_eq {i j k : Nat} (h : word input i = word input j) (hk : k < 4)
    (hi : i + 4 ≤ input.data.size) (hj : j + 4 ≤ input.data.size) :
    input.data[i + k]? = input.data[j + k]? := by
  have byte : ∀ n, n < input.data.size → input.data[n]? = some (input.data.getD n 0) := by
    intro n hn
    rw [Array.getD_eq_getD_getElem?, Array.getElem?_eq_getElem hn]
    rfl
  rw [byte _ (by omega), byte _ (by omega)]
  simp only [word] at h
  have small : ∀ n, (input.data.getD n 0).toNat < 256 := fun n => (input.data.getD n 0).toNat_lt
  have := small i
  have := small (i + 1)
  have := small (i + 2)
  have := small (i + 3)
  have := small j
  have := small (j + 1)
  have := small (j + 2)
  have := small (j + 3)
  congr 1
  apply UInt8.toNat_inj.1
  obtain rfl | rfl | rfl | rfl : k = 0 ∨ k = 1 ∨ k = 2 ∨ k = 3 := by omega
  · rw [Nat.add_zero, Nat.add_zero]
    omega
  all_goals omega

theorem commonLength_le (input : Input) {i j : Nat} (h : j ≤ input.data.size) :
    j + commonLength input i j ≤ input.data.size := by
  fun_induction commonLength input i j with
  | case1 i j hj heq ih =>
    have := ih hj
    omega
  | case2 => exact h
  | case3 => exact h

/-- As many bytes as are counted are equal. -/
theorem getElem?_of_lt_commonLength {i j k : Nat} (hij : i ≤ j) (h : k < commonLength input i j) :
    input.data[i + k]? = input.data[j + k]? := by
  fun_induction commonLength input i j generalizing k with
  | case1 i j hj heq ih =>
    cases k with
    | zero =>
      rw [Array.getD_eq_getD_getElem?, Array.getElem?_eq_getElem (by omega),
        Option.getD_some] at heq
      simp only [Nat.add_zero, Array.getElem?_eq_getElem hj,
        Array.getElem?_eq_getElem (Nat.lt_of_le_of_lt hij hj), heq]
    | succ k =>
      have := ih (by omega) (k := k) (by omega)
      rwa [Nat.add_right_comm i, Nat.add_right_comm j] at this
  | case2 => omega
  | case3 => omega

/-! ## The table -/

/-- Whether all places in the table are before `bound`. -/
def Before (table : Table) (bound : Nat) : Prop :=
  ∀ k, table.getD k 0 < bound

theorem before_replicate {n bound : Nat} (h : 0 < bound) : Before (Array.replicate n 0) bound := by
  intro k
  rw [Array.getD_eq_getD_getElem?, Array.getElem?_replicate]
  split <;> exact h

theorem Before.set {table : Table} {bound bound' i : Nat} (h : Before table bound)
    (hle : bound ≤ bound') (hi : i < bound') (slot : Nat) :
    Before (table.setIfInBounds slot i) bound' := by
  intro k
  have old := h k
  rw [Array.getD_eq_getD_getElem?] at old ⊢
  rw [Array.getElem?_setIfInBounds]
  split
  · split
    · exact hi
    · exact Nat.lt_of_le_of_lt (Nat.zero_le i) hi
  · omega

/-- A match is found where there is room for one, and for bytes that were seen before. -/
theorem find_spec {table table' : Table} {s skipped start place : Nat}
    (h : find input table s skipped = some (start, place, table')) (ht : Before table s) :
    s ≤ start ∧ start < limit input ∧ place < start ∧ word input start = word input place ∧
      Before table' (start + 1) := by
  fun_induction find input table s skipped with
  | case1 => cases h
  | case2 table s skipped step room seen _ same =>
    simp only [Option.some.injEq, Prod.mk.injEq] at h
    obtain ⟨rfl, hplace, htable⟩ := h
    rw [← hplace, ← htable]
    exact ⟨Nat.le_refl _, by omega, ht _, same, ht.set (Nat.le_succ _) (Nat.lt_succ_self _) _⟩
  | case3 table s skipped step room seen table' differ ih =>
    have := ih h (ht.set (by omega) (by omega) _)
    exact ⟨by omega, this.2⟩

/-! ## Elements -/

theorem path_splitCopy {data : Array UInt8} {offset length start : Nat} (low : 4 ≤ length)
    (pos : 0 < offset) (back : offset ≤ start) (le : start + length ≤ data.size)
    (same : ∀ i, start ≤ i → i < start + length → data[i - offset]? = data[i]?) :
    Path data start (splitCopy offset length) (start + length) := by
  have piece : ∀ n m, 4 ≤ m → m ≤ 64 → n + m ≤ length →
      Covers data (start + n) (.copy offset m) (start + n + m) := by
    intro n m h4 h64 hle
    exact ⟨by omega, by omega, rfl, h4, h64, pos, by omega,
      fun i h h' => same i (by omega) (by omega)⟩
  fun_induction splitCopy offset length generalizing start with
  | case1 length long ih =>
    refine .cons (piece 0 64 (by omega) (by omega) (by omega)) ?_
    have next : Path data (start + 64) (splitCopy offset (length - 64))
        (start + 64 + (length - 64)) :=
      ih (by omega) (by omega) (by omega) (fun i h h' => same i (by omega) (by omega))
        fun n m h4 h64 hle => by
          have := piece (64 + n) m h4 h64 (by omega)
          rwa [← Nat.add_assoc] at this
    rwa [show start + 64 + (length - 64) = start + length by omega] at next
  | case2 length _ long =>
    refine .cons (piece 0 60 (by omega) (by omega) (by omega))
      (.cons (piece 60 (length - 60) (by omega) (by omega) (by omega)) ?_)
    rw [show start + 60 + (length - 60) = start + length by omega]
    exact .nil _
  | case3 length _ short => exact .cons (piece 0 length low (by omega) (by omega)) (.nil _)

theorem path_literal {start stop : Nat} (h : start < stop) (hs : stop ≤ input.data.size) :
    Path input.data start [.literal (slice input start stop)] stop :=
  .cons ⟨h, hs, rfl⟩ (.nil _)

theorem path_remainder {start : Nat} (h : start ≤ input.data.size) :
    Path input.data start (remainder input start) input.data.size := by
  rw [remainder]
  split
  · exact path_literal (by assumption) (Nat.le_refl _)
  · obtain rfl : start = input.data.size := by omega
    exact .nil _

theorem limit_le (input : Input) : limit input ≤ input.data.size - 15 := Nat.le_refl _

/-- What is known when the elements from `emitted` on are looked for. -/
def Ready (input : Input) (table : Table) (emitted s : Nat) : Option Nat → Prop
  | none => emitted < s ∧ emitted ≤ input.data.size ∧ Before table s
  | some place => emitted = s ∧ s < limit input ∧ place < s ∧ word input s = word input place ∧
      Before table (s + 1)

/-- A match is a copy of the bytes it was compared with. -/
theorem path_match {s place : Nat} (hs : s < limit input) (hp : place < s)
    (hw : word input s = word input place) :
    Path input.data s (splitCopy (s - place) (4 + commonLength input (place + 4) (s + 4)))
      (s + 4 + commonLength input (place + 4) (s + 4)) := by
  have room := limit_le input
  have fits := commonLength_le input (i := place + 4) (j := s + 4) (by omega)
  rw [Nat.add_assoc]
  refine path_splitCopy (by omega) (by omega) (by omega) (by omega) fun i hlow hhigh => ?_
  by_cases head : i < s + 4
  · have := getElem?_of_word_eq hw.symm (k := i - s) (by omega) (by omega) (by omega)
    rwa [show place + (i - s) = i - (s - place) by omega, show s + (i - s) = i by omega] at this
  · have inside : i - (s + 4) < commonLength input (place + 4) (s + 4) := by omega
    have := getElem?_of_lt_commonLength (by omega) inside
    rwa [show place + 4 + (i - (s + 4)) = i - (s - place) by omega,
      show s + 4 + (i - (s + 4)) = i by omega] at this

theorem path_elementsFrom {table : Table} {emitted s : Nat} {seen : Option Nat}
    (h : Ready input table emitted s seen) :
    Path input.data emitted (elementsFrom input table emitted s seen) input.data.size := by
  fun_induction elementsFrom input table emitted s seen with
  | case1 table emitted s found => exact path_remainder h.2.1
  | case2 table emitted s start place table' found ih =>
    obtain ⟨before, -, ht⟩ := h
    obtain ⟨hle, hlim, hp, hw, ht'⟩ := find_spec found ht
    have := limit_le input
    exact (path_literal (by omega) (by omega)).append (ih ⟨rfl, hlim, hp, hw, ht'⟩)
  | case3 table emitted s place stop ihMatch ihSearch =>
    obtain ⟨rfl, hs, hp, hw, ht⟩ := h
    have fits := commonLength_le input (i := place + 4) (j := emitted + 4) (by
      have := limit_le input
      omega)
    have copied := path_match hs hp hw
    have length : stop - emitted = 4 + commonLength input (place + 4) (emitted + 4) := by
      simp only [stop]
      omega
    rw [← length] at copied
    refine copied.append ?_
    split
    · exact path_remainder fits
    · rename_i more
      have last : Before (table.setIfInBounds (Matcher.hash input (stop - 1)) (stop - 1)) stop :=
        ht.set (by omega) (by omega) _
      -- the places up to the end of the match are in the table when the search goes on
      have both := last.set (Nat.le_succ _) (Nat.lt_succ_self stop) (Matcher.hash input stop)
      dsimp only
      split
      · rename_i same
        exact ihMatch more ⟨rfl, by omega, last _, same, both⟩
      · exact ihSearch more ⟨Nat.lt_succ_self _, fits, both⟩

/-- The elements found for data stand for it. -/
theorem path_elements (data : Bytes) : Path data.toArray 0 (elements data) data.toArray.size := by
  rw [elements]
  split
  · exact @path_remainder ⟨data.toArray, _⟩ 0 (Nat.zero_le _)
  · exact @path_elementsFrom ⟨data.toArray, _⟩ _ _ _ _
      ⟨Nat.zero_lt_one, Nat.zero_le _, before_replicate Nat.zero_lt_one⟩

end Matcher

namespace Block

theorem readLengthFrom_encode_append (n index value : Nat) (rest : Bytes) (hi : index < lengthSize)
    (hn : n * 128 ^ index ≤ maxLength) :
    readLengthFrom index value (Varint.encode n ++ rest) =
      some (value + n * 128 ^ index, rest) := by
  induction n using Varint.encode.induct generalizing index value with
  | case1 n small =>
    have byte : n.toUInt8.toNat = n := Varint.toNat_toUInt8 (by omega)
    rw [Varint.encode, if_pos small, List.singleton_append, readLengthFrom,
      if_neg (Nat.not_le.2 hi)]
    simp only [byte, small, if_true, Nat.mod_eq_of_lt small, Nat.pow_eq]
  | case2 n large ih =>
    have byte : (n % 128 + 128).toUInt8.toNat = n % 128 + 128 :=
      Varint.toNat_toUInt8 (by omega)
    have notLast : index ≠ 4 := by
      rintro rfl
      simp only [maxLength] at hn
      omega
    have group := Varint.mod_add_div_mul_pow n index
    have inside : index + 1 < lengthSize := by
      simp only [lengthSize] at hi ⊢
      omega
    have next := ih (index + 1) (value + n % 128 * 128 ^ index) inside (by omega)
    have low : (n % 128 + 128) % 128 = n % 128 := by omega
    rw [Varint.encode, if_neg large, List.cons_append, readLengthFrom, if_neg (Nat.not_le.2 hi)]
    simp only [byte, low, Nat.pow_eq]
    rw [if_neg (by omega), next, Nat.add_assoc, group]

theorem readLength_encode_append {n : Nat} (h : n ≤ maxLength) (rest : Bytes) :
    readLength (Varint.encode n ++ rest) = some (n, rest) := by
  have := readLengthFrom_encode_append n 0 0 rest (by decide) (by simpa using h)
  rw [Nat.zero_add, Nat.pow_zero, Nat.mul_one] at this
  rw [readLength, this]
  exact if_pos (decide_eq_true h)

/-- Data of one chunk is read back from its block. -/
theorem decode_encode {data : Bytes} (h : data.length ≤ 65536) :
    decode (encode data) = some data := by
  have expanded := expand_path (Matcher.path_elements data) h (Nat.le_refl _)
  rw [Array.extract_zero] at expanded
  rw [decode, encode, readLength_encode_append (Nat.le_trans h (by decide)), Option.bind_eq_bind,
    Option.bind_some]
  dsimp only
  rw [show data.length = data.toArray.size from rfl, expanded, Option.bind_eq_bind,
    Option.bind_some, if_pos rfl]
  rfl

/-- A block that can be decoded claims the length of its data. -/
theorem claimedLength_of_decode {block data : Bytes} (h : decode block = some data) :
    claimedLength block = some data.length := by
  rw [decode, Option.bind_eq_bind, Option.bind_eq_some_iff] at h
  obtain ⟨⟨size, rest⟩, hlength, h⟩ := h
  obtain ⟨out, -, h⟩ := Option.bind_eq_some_iff.1 h
  split at h
  · rename_i hsize
    cases h
    have nonempty : block ≠ [] := by
      rintro rfl
      cases hlength
    rw [claimedLength, if_neg nonempty, hlength, Option.map_some, Array.length_toList, hsize]
  · cases h

end Block

end PeerCensus.Snappy
