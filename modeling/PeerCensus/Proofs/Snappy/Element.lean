import Mathlib.Algebra.Group.Nat.Defs
import PeerCensus.Snappy.Block

/-!
# Elements that make up given data

Data is gone through from its first byte to its last. An element `Covers` a stretch of it when it
stands for exactly the bytes of that stretch, given those before it; a `Path` is a row of elements
each of which begins where the one before it ends. Whatever finds such a path, the reader of blocks
gets the data back from it.

Results:
* `Element.readAfter_encode`: an element is read back from its written form.
* `expand_path`: elements along a path are expanded to the data.
-/

namespace PeerCensus.Snappy

namespace Element

/-- An element with a written form: no longer and no further than a block of one chunk allows. -/
def Writable : Element → Prop
  | literal bytes => 0 < bytes.length ∧ bytes.length ≤ 65536
  | copy offset length => offset < 65536 ∧ 4 ≤ length ∧ length ≤ 64

theorem takeExactly_append {n : Nat} {bytes rest : Bytes} (h : bytes.length = n) :
    takeExactly n (bytes ++ rest) = some (bytes, rest) := by
  rw [takeExactly, List.take_left' h, List.drop_left' h]
  exact if_pos h

theorem toNat_tag {n : Nat} (h : n < 256) : n.toUInt8.toNat = n :=
  UInt8.toNat_ofNat_of_lt h

theorem readAfter_shortLiteral {bytes : Bytes} (rest : Bytes) (h : bytes.length - 1 < 60)
    (pos : 0 < bytes.length) :
    readAfter (4 * (bytes.length - 1)).toUInt8 (bytes ++ rest) = some (literal bytes, rest) := by
  have tag : (4 * (bytes.length - 1)).toUInt8.toNat = 4 * (bytes.length - 1) := toNat_tag (by omega)
  have quarter : 4 * (bytes.length - 1) / 4 = bytes.length - 1 := by omega
  simp only [readAfter, tag, quarter, Nat.mul_mod_right, if_true, h]
  rw [takeExactly_append (by omega)]
  rfl

/-- So many bytes are enough for the length of a literal. -/
theorem lt_pow_lengthBytes {n : Nat} (h : n < 65536) :
    n < 256 ^ lengthBytes n ∧ 1 ≤ lengthBytes n ∧ lengthBytes n ≤ 2 := by
  by_cases one : n < 0x100
  · rw [lengthBytes, if_pos one]
    omega
  · rw [lengthBytes, if_neg one, if_pos (by omega)]
    omega

theorem readAfter_longLiteral {bytes : Bytes} (rest : Bytes) (h : bytes.length ≤ 65536)
    (long : 60 ≤ bytes.length - 1) :
    readAfter (4 * (59 + lengthBytes (bytes.length - 1))).toUInt8
        (Bytes.ofNatLE (lengthBytes (bytes.length - 1)) (bytes.length - 1) ++ (bytes ++ rest)) =
      some (literal bytes, rest) := by
  obtain ⟨fits, low, high⟩ := lt_pow_lengthBytes (n := bytes.length - 1) (by omega)
  have back : Bytes.toNatLE (Bytes.ofNatLE (lengthBytes (bytes.length - 1)) (bytes.length - 1)) =
      bytes.length - 1 := Bytes.toNatLE_ofNatLE_of_lt fits
  have tag := toNat_tag (n := 4 * (59 + lengthBytes (bytes.length - 1))) (by omega)
  generalize lengthBytes (bytes.length - 1) = size at *
  have quarter : 4 * (59 + size) / 4 = 59 + size := by omega
  have large : ¬ 59 + size < 60 := by omega
  have width : 59 + size - 59 = size := by omega
  simp only [readAfter, tag, quarter, Nat.mul_mod_right, if_true, large, if_false, width]
  rw [takeExactly_append (Bytes.length_ofNatLE ..), Option.bind_eq_bind, Option.bind_some]
  dsimp only
  rw [back, takeExactly_append (by omega)]
  rfl

theorem readAfter_nearCopy {offset length : Nat} (rest : Bytes) (near : offset < 2048)
    (low : 4 ≤ length) (short : length < 12) :
    readAfter (offset / 256 * 32 + (length - 4) * 4 + 1).toUInt8 (offset.toUInt8 :: rest) =
      some (copy offset length, rest) := by
  have tag : (offset / 256 * 32 + (length - 4) * 4 + 1).toUInt8.toNat =
      offset / 256 * 32 + (length - 4) * 4 + 1 := toNat_tag (by omega)
  have kind : (offset / 256 * 32 + (length - 4) * 4 + 1) % 4 = 1 := by omega
  have byte : offset.toUInt8.toNat = offset % 256 := UInt8.toNat_ofNat'
  simp only [readAfter, tag, kind, Nat.one_ne_zero, if_false, if_true]
  have one : takeExactly 1 (offset.toUInt8 :: rest) = some ([offset.toUInt8], rest) :=
    takeExactly_append (show [offset.toUInt8].length = 1 from rfl)
  rw [one]
  simp only [Option.bind_eq_bind, Option.bind_some, Bytes.toNatLE, byte, Option.pure_def,
    Option.some.injEq, Prod.mk.injEq, copy.injEq, and_true]
  omega

theorem readAfter_farCopy {offset length : Nat} (rest : Bytes) (far : offset < 65536)
    (low : 4 ≤ length) (high : length ≤ 64) :
    readAfter ((length - 1) * 4 + 2).toUInt8 (Bytes.ofNatLE 2 offset ++ rest) =
      some (copy offset length, rest) := by
  have tag : ((length - 1) * 4 + 2).toUInt8.toNat = (length - 1) * 4 + 2 := toNat_tag (by omega)
  have kind : ((length - 1) * 4 + 2) % 4 = 2 := by omega
  have quarter : ((length - 1) * 4 + 2) / 4 + 1 = length := by omega
  have back : Bytes.toNatLE (Bytes.ofNatLE 2 offset) = offset := Bytes.toNatLE_ofNatLE_of_lt far
  simp only [readAfter, tag, kind, if_true]
  rw [if_neg (by decide), if_neg (by decide), takeExactly_append (Bytes.length_ofNatLE ..)]
  simp only [Option.bind_eq_bind, Option.bind_some, back, quarter, Option.pure_def]

/-- An element is read back from its written form. -/
theorem readAfter_encode {e : Element} (h : e.Writable) :
    ∃ tag body, e.encode = tag :: body ∧
      ∀ rest, readAfter tag (body ++ rest) = some (e, rest) := by
  cases e with
  | literal bytes =>
    obtain ⟨pos, le⟩ := h
    by_cases short : bytes.length - 1 < 60
    · exact ⟨_, _, if_pos short, fun rest => readAfter_shortLiteral rest short pos⟩
    · refine ⟨_, _, if_neg short, fun rest => ?_⟩
      refine Eq.trans (congrArg _ (List.append_assoc ..)) ?_
      exact readAfter_longLiteral rest le (by omega)
  | copy offset length =>
    obtain ⟨far, low, high⟩ := h
    by_cases near : length < 12 ∧ offset < 2048
    · exact ⟨_, _, if_pos near, fun rest => readAfter_nearCopy rest near.2 low near.1⟩
    · exact ⟨_, _, if_neg near, fun rest => readAfter_farCopy rest far low high⟩

end Element

/-! ## Covering data -/

/-- Whether an element stands for the bytes of `data` from `start` up to `stop`. -/
def Covers (data : Array UInt8) (start : Nat) (e : Element) (stop : Nat) : Prop :=
  start < stop ∧ stop ≤ data.size ∧ match e with
    | .literal bytes => bytes = (data.extract start stop).toList
    | .copy offset length => stop = start + length ∧ 4 ≤ length ∧ length ≤ 64 ∧
        0 < offset ∧ offset ≤ start ∧ ∀ i, start ≤ i → i < stop → data[i - offset]? = data[i]?

/-- Elements that stand for the bytes of `data` from `start` up to `stop`, one after another. -/
inductive Path (data : Array UInt8) : Nat → List Element → Nat → Prop
  | nil (start : Nat) : Path data start [] start
  | cons {start middle stop : Nat} {e : Element} {es : List Element} :
      Covers data start e middle → Path data middle es stop → Path data start (e :: es) stop

theorem Path.append {data : Array UInt8} {start middle stop : Nat} {es es' : List Element}
    (h : Path data start es middle) (h' : Path data middle es' stop) :
    Path data start (es ++ es') stop := by
  induction h with
  | nil => exact h'
  | cons hc _ ih => exact .cons hc (ih h')

theorem Covers.writable {data : Array UInt8} {start stop : Nat} {e : Element}
    (h : Covers data start e stop) (hs : data.size ≤ 65536) : e.Writable := by
  obtain ⟨lt, le, h⟩ := h
  cases e with
  | literal bytes =>
    subst h
    simp only [Element.Writable, Array.length_toList, Array.size_extract]
    omega
  | copy offset length =>
    obtain ⟨-, low, high, -, back, -⟩ := h
    exact ⟨by omega, low, high⟩

/-- Copying back along bytes that repeat goes on with the data. -/
theorem copyBack_extract {data : Array UInt8} {offset length start : Nat} (pos : 0 < offset)
    (back : offset ≤ start) (le : start + length ≤ data.size)
    (same : ∀ i, start ≤ i → i < start + length → data[i - offset]? = data[i]?) :
    copyBack offset length (data.extract 0 start) = data.extract 0 (start + length) := by
  induction length generalizing start with
  | zero => rfl
  | succ length ih =>
    have size : (data.extract 0 start).size = start := by simp only [Array.size_extract]; omega
    have byte : (data.extract 0 start).getD (start - offset) 0 = data[start] := by
      rw [Array.getD_eq_getD_getElem?, Array.getElem?_extract, if_pos (by omega), Nat.zero_add,
        same start (Nat.le_refl _) (by omega), Array.getElem?_eq_getElem (by omega)]
      rfl
    rw [copyBack, size, byte, Array.push_extract_getElem, Nat.min_eq_left (Nat.zero_le _),
      ih (by omega) (by omega) (fun i h h' => same i (by omega) (by omega))]
    congr 1
    omega

/-- Applying an element to the data before it goes on with the data. -/
theorem Covers.apply {data : Array UInt8} {start stop : Nat} {e : Element}
    (h : Covers data start e stop) :
    e.apply (data.extract 0 start) = some (data.extract 0 stop) := by
  obtain ⟨lt, le, h⟩ := h
  cases e with
  | literal bytes =>
    subst h
    rw [Element.apply, Array.toArray_toList, Array.extract_append_extract]
    congr 2
    omega
  | copy offset length =>
    obtain ⟨rfl, -, -, pos, back, same⟩ := h
    have size : (data.extract 0 start).size = start := by simp only [Array.size_extract]; omega
    rw [Element.apply, size, if_neg (by omega), copyBack_extract pos back le same]

/-- Elements along a path are expanded to the data. -/
theorem expand_path {data : Array UInt8} {start : Nat} {es : List Element} {size : Nat}
    (h : Path data start es data.size) (hs : data.size ≤ 65536) (hsize : data.size ≤ size) :
    expand size (data.extract 0 start) (es.flatMap Element.encode) = some data := by
  induction es generalizing start with
  | nil =>
    cases h
    rw [List.flatMap_nil, expand, Array.extract_size]
  | cons e es ih =>
    obtain - | ⟨hc, hp⟩ := h
    obtain ⟨tag, body, written, read⟩ := Element.readAfter_encode (hc.writable hs)
    rw [List.flatMap_cons, written, List.cons_append, expand, read]
    dsimp only
    rw [hc.apply]
    dsimp only
    rw [if_neg, ih hp]
    have := hc.2.1
    simp only [Array.size_extract]
    omega

end PeerCensus.Snappy
