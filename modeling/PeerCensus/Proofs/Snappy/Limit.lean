import Mathlib.Algebra.Order.Floor.Div
import Mathlib.GroupTheory.GroupAction.Ring
import PeerCensus.Proofs.Snappy.Encoding

/-!
# The limit for frames

Whoever reads the frames of a payload knows no more of them beforehand than how long the payload is.
At worst they are all the chunks that so long a payload needs, each with a block that has grown as
far as blocks may. The limit is the length of these. Frames with no more chunks are within it,
wherever they cut the payload: the sixths by which the parts may grow, each rounded down, are
together no more than the sixth of the whole.

Results:
* `maxEncodedLength_eq`: the limit is the worst length, if that fits into 64 bits.
* `length_le_of_isSparing`: frames with no more chunks than needed do not exceed the worst length.
* `isSparing_encode`: the frames that are written have no more chunks than needed.
* `maxEncodedLength_exact`: the limit is the worst length, and such frames are always within it.
-/

namespace PeerCensus.Snappy

/-! ## The worst length -/

theorem size64?_eq_none_iff {n : Nat} : size64? n = none ↔ 2 ^ 64 ≤ n := by
  simp [size64?]

theorem size64?_eq_some_iff {n size : Nat} : size64? n = some size ↔ size = n ∧ n < 2 ^ 64 := by
  simp [size64?, and_comm, eq_comm]

/-- The length of the frames of `n` bytes at their worst: a stream identifier, and for every 65536
bytes a header, a checksum and a block that is longer than its data by 32 bytes and a sixth. -/
def worstLength (n : Nat) : Nat :=
  40 * max 1 (n ⌈/⌉ 65536) + 10 + n + n / 6

theorem ceilDiv_maxChunkData (n : Nat) : n ⌈/⌉ 65536 = (n + (maxChunkData - 1)) / maxChunkData := by
  rw [Nat.ceilDiv_eq_add_pred_div, Nat.add_sub_assoc (by decide)]
  rfl

/-- The limit is the worst length, if that fits into 64 bits. -/
theorem maxEncodedLength_eq (n : Nat) : maxEncodedLength n = size64? (worstLength n) := by
  calc maxEncodedLength n
      = (size64? (max 1 (n ⌈/⌉ 65536) * 40)).bind fun overhead =>
          (size64? (overhead + 10)).bind fun empty =>
            (size64? (empty + n)).bind fun plain => size64? (plain + n / 6) := by
        rw [ceilDiv_maxChunkData, Nat.max_comm]
        rfl
    _ = size64? (max 1 (n ⌈/⌉ 65536) * 40 + (10 + (n + n / 6))) := by
        simp only [size64?_bind_add, Nat.add_assoc]
    _ = size64? (worstLength n) := by
        rw [worstLength, Nat.mul_comm 40]
        simp only [Nat.add_assoc]

theorem maxEncodedLength_eq_none_iff {n : Nat} :
    maxEncodedLength n = none ↔ 2 ^ 64 ≤ worstLength n := by
  rw [maxEncodedLength_eq, size64?_eq_none_iff]

theorem maxEncodedLength_eq_some_iff {n limit : Nat} :
    maxEncodedLength n = some limit ↔ limit = worstLength n ∧ worstLength n < 2 ^ 64 := by
  rw [maxEncodedLength_eq, size64?_eq_some_iff]

/-- The largest length that has a limit; that limit takes all 64 bits. -/
example : maxEncodedLength 15803227327900649765 = some (2 ^ 64 - 1) ∧
    maxEncodedLength 15803227327900649766 = none := by decide

/-- There is a limit for every length that data can have. -/
theorem maxEncodedLength_isSome {n : Nat} (h : n < 2 ^ 63) :
    ∃ limit, maxEncodedLength n = some limit := by
  refine ⟨worstLength n, maxEncodedLength_eq_some_iff.2 ⟨rfl, ?_⟩⟩
  rw [worstLength, ceilDiv_maxChunkData]
  simp only [maxChunkData]
  omega

/-! ## Frames with no more chunks than needed -/

/-- A chunk that stores data as it is, or in a block that is longer than the data by no more than 32
bytes and a sixth. Only sizes matter here, so checksum and block may be any bytes. -/
inductive Chunk.Stores : Chunk → Bytes → Prop
  | uncompressed {sum data : Bytes} : sum.length = checksumSize → data.length ≤ maxChunkData →
    Stores ⟨uncompressedKind, sum ++ data⟩ data
  | compressed {sum block data : Bytes} : sum.length = checksumSize →
    data.length ≤ maxChunkData → block.length ≤ 32 + data.length + data.length / 6 →
    Stores ⟨compressedKind, sum ++ block⟩ data

/-- Whether `framed` is a stream identifier and chunks that store `raw`, wherever they cut it, and
no more of them than so many bytes need. Even for no bytes there may be one. -/
def IsSparing (framed raw : Bytes) : Prop :=
  ∃ (chunks : List Chunk) (parts : List Bytes),
    framed = (Chunk.identifier :: chunks).flatMap Chunk.encode ∧
    List.Forall₂ Chunk.Stores chunks parts ∧ raw = parts.flatten ∧
    chunks.length ≤ max 1 (raw.length ⌈/⌉ 65536)

namespace Chunk

variable {c : Chunk} {data : Bytes}

theorem length_encode (c : Chunk) : c.encode.length = headerSize + c.body.length := by
  rw [encode_eq, List.length_append]
  rfl

theorem length_encode_le_of_stores (h : c.Stores data) :
    c.encode.length ≤ 40 + data.length + data.length / 6 := by
  rw [length_encode]
  cases h with
  | uncompressed hsum =>
    rw [List.length_append, hsum]
    simp only [headerSize, checksumSize]
    omega
  | compressed hsum _ hblock =>
    rw [List.length_append, hsum]
    simp only [headerSize, checksumSize]
    omega

/-- The chunk that is written for data stores it. -/
theorem stores_ofData (h : data.length ≤ maxChunkData) : (ofData data).Stores data := by
  rw [ofData]
  split
  · exact .uncompressed (length_checksum data) h
  · -- a block that is written saves an eighth, so it has not grown at all
    exact .compressed (length_checksum data) h (by omega)

end Chunk

/-- Chunks take no more than their headers, checksums and growth by 32 bytes, their data and a sixth
of all of it. -/
theorem length_flatMap_le_of_stores {chunks : List Chunk} {parts : List Bytes}
    (h : List.Forall₂ Chunk.Stores chunks parts) :
    (chunks.flatMap Chunk.encode).length ≤
      40 * chunks.length + parts.flatten.length + parts.flatten.length / 6 := by
  induction h with
  | nil => exact Nat.le_refl 0
  | cons hchunk _ ih =>
    have := Chunk.length_encode_le_of_stores hchunk
    simp only [List.flatMap_cons, List.flatten_cons, List.length_append, List.length_cons]
    omega

/-- Frames with no more chunks than needed do not exceed the worst length. -/
theorem length_le_of_isSparing {framed raw : Bytes} (h : IsSparing framed raw) :
    framed.length ≤ worstLength raw.length := by
  obtain ⟨chunks, parts, rfl, hstores, rfl, hfew⟩ := h
  have hlength := length_flatMap_le_of_stores hstores
  have identifier : Chunk.identifier.encode.length = 10 := rfl
  rw [List.flatMap_cons, List.length_append, identifier, worstLength]
  omega

/-! ## What is written -/

theorem length_chunks_le_ceilDiv (raw : Bytes) :
    (Bytes.chunks (maxChunkData - 1) raw).length ≤ raw.length ⌈/⌉ 65536 := by
  rw [ceilDiv_maxChunkData, Nat.le_div_iff_mul_le (by decide)]
  exact length_chunks_le (maxChunkData - 1) raw

/-- The frames that are written have no more chunks than needed. -/
theorem isSparing_encode {raw : Bytes} (h : raw ≠ []) : IsSparing (encode raw) raw := by
  have stored : ∀ piece ∈ Bytes.chunks (maxChunkData - 1) raw,
      (Chunk.ofData piece).Stores piece := by
    intro piece hpiece
    exact Chunk.stores_ofData (mem_chunks hpiece).2
  refine ⟨(Bytes.chunks (maxChunkData - 1) raw).map Chunk.ofData,
    Bytes.chunks (maxChunkData - 1) raw, ?_, ?_, (Bytes.flatten_chunks ..).symm, ?_⟩
  · rw [encode_eq, chunksOf, if_neg h]
  · rw [List.forall₂_map_left_iff]
    exact List.forall₂_same.2 stored
  · rw [List.length_map]
    exact Nat.le_trans (length_chunks_le_ceilDiv raw) (Nat.le_max_right ..)

/-- What is written for data is within the limit for its length. -/
theorem length_encode_le {raw : Bytes} {limit : Nat}
    (h : maxEncodedLength raw.length = some limit) : (encode raw).length ≤ limit := by
  obtain ⟨rfl, -⟩ := maxEncodedLength_eq_some_iff.1 h
  by_cases hempty : raw = []
  · rw [hempty, encode_nil]
    exact Nat.zero_le _
  · exact length_le_of_isSparing (isSparing_encode hempty)

/-! ## The limit -/

/-- The limit for the frames of a payload is exact: for every length it is the worst length, and
there is none exactly when that does not fit into 64 bits. And it is sufficient: every payload of
fewer than `2 ^ 63` bytes, which is more than a memory can hold, has one, and all frames of a
payload with no more chunks than needed are within its limit, hence those that are written for
it. -/
theorem maxEncodedLength_exact :
    (∀ n, (maxEncodedLength n = none ↔ 2 ^ 64 ≤ worstLength n) ∧
      ∀ limit, maxEncodedLength n = some limit ↔ limit = worstLength n ∧ worstLength n < 2 ^ 64) ∧
    ∀ raw : Bytes, (raw.length < 2 ^ 63 → ∃ limit, maxEncodedLength raw.length = some limit) ∧
      ∀ limit, maxEncodedLength raw.length = some limit →
        (∀ framed, IsSparing framed raw → framed.length ≤ limit) ∧
          (encode raw).length ≤ limit := by
  refine ⟨fun n => ⟨maxEncodedLength_eq_none_iff, fun limit => maxEncodedLength_eq_some_iff⟩, ?_⟩
  intro raw
  refine ⟨maxEncodedLength_isSome, fun limit hlimit => ⟨fun framed hsparing => ?_, ?_⟩⟩
  · obtain ⟨rfl, -⟩ := maxEncodedLength_eq_some_iff.1 hlimit
    exact length_le_of_isSparing hsparing
  · exact length_encode_le hlimit

/-- Of 65537 bytes the first one stands in a block, which has grown to three bytes, and the others
stand as they are. -/
theorem maxEncodedLength_exact_uneven :
    maxEncodedLength (7 :: List.replicate 65536 (7 : UInt8)).length = some 76549 ∧
      ∃ framed, framed = [Chunk.identifier, ⟨compressedKind, Chunk.checksum [7] ++ [1, 0, 7]⟩,
          ⟨uncompressedKind, Chunk.checksum (List.replicate 65536 7) ++
            List.replicate 65536 7⟩].flatMap Chunk.encode ∧
        IsSparing framed (7 :: List.replicate 65536 7) ∧ framed.length ≤ 76549 := by
  have length : (7 :: List.replicate 65536 (7 : UInt8)).length = 65537 := by
    rw [List.length_cons, List.length_replicate]
  have limit : maxEncodedLength (7 :: List.replicate 65536 (7 : UInt8)).length = some 76549 := by
    rw [length]
    decide
  have block : Chunk.Stores ⟨compressedKind, Chunk.checksum [7] ++ [1, 0, 7]⟩ [7] :=
    .compressed (Chunk.length_checksum [7]) (by decide) (by decide)
  have plain : Chunk.Stores ⟨uncompressedKind, Chunk.checksum (List.replicate 65536 7) ++
      List.replicate 65536 7⟩ (List.replicate 65536 7) :=
    .uncompressed (Chunk.length_checksum _) (Nat.le_of_eq List.length_replicate)
  have whole : 7 :: List.replicate 65536 (7 : UInt8) = [[7], List.replicate 65536 7].flatten := by
    rw [List.flatten_cons, List.flatten_cons, List.flatten_nil, List.append_nil,
      List.singleton_append]
  have few : 2 ≤ max 1 ((7 :: List.replicate 65536 (7 : UInt8)).length ⌈/⌉ 65536) := by
    rw [length]
    decide
  have sparing := show IsSparing _ _ from ⟨_, _, rfl, .cons block (.cons plain .nil), whole, few⟩
  exact ⟨limit, _, rfl, sparing, ((maxEncodedLength_exact.2 _).2 76549 limit).1 _ sparing⟩

end PeerCensus.Snappy
