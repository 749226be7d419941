import PeerCensus.Proofs.Snappy.Matcher
import PeerCensus.Snappy.Collector

/-!
# The frames of a payload

The frames of a payload are a row of chunks that begins with a stream identifier, holds the payload,
and has no chunk after the one that holds the last byte. A row of chunks is read back from its
bytes, and what the headers and lengths tell about a chunk is true of its data.

Results:
* `Chunk.dataLength_eq`: how much data a chunk holds can be told without decoding it.
* `decode_flatMap_encode`: the decoder puts together the data of all chunks.
* `decode_of_isFraming`: the frames of a payload are decoded to it.
-/

namespace PeerCensus.Snappy

/-- The chunks hold `raw`, and none of them comes when all of it is there. -/
inductive Fills : List Chunk → Bytes → Prop
  | nil : Fills [] []
  | cons {c : Chunk} {cs : List Chunk} {part raw : Bytes} :
    c.data? = some part → part ++ raw ≠ [] → Fills cs raw → Fills (c :: cs) (part ++ raw)

/-- Whether `bytes` are the frames of the payload `raw`. -/
def IsFraming (bytes raw : Bytes) : Prop :=
  ∃ chunks : List Chunk, bytes = chunks.flatMap Chunk.encode ∧
    (∀ c ∈ chunks.head?, c.kind = identifierKind) ∧ Fills chunks raw

/-! ## Single chunks -/

namespace Chunk

variable {c : Chunk} {data : Bytes}

/-- A chunk that has a place in a stream is of the size that a header can tell. -/
theorem length_body_lt (h : c.data? = some data) : c.body.length < 2 ^ 24 := by
  rw [data?] at h
  split at h
  · split at h
    · rename_i hbody
      rw [hbody]
      decide
    · cases h
  · split at h
    · cases h
    · rename_i hsize
      simp only [maxBody, maxChunkData, not_or] at hsize
      omega

theorem takeExactly_eq_some {n : Nat} {bytes taken left : Bytes}
    (h : Element.takeExactly n bytes = some (taken, left)) :
    bytes = taken ++ left ∧ taken.length = n := by
  simp only [Element.takeExactly, Option.ite_none_right_eq_some, Option.some.injEq,
    Prod.mk.injEq] at h
  obtain ⟨hlength, rfl, rfl⟩ := h
  exact ⟨(List.take_append_drop n bytes).symm, hlength⟩

theorem length_checksum (data : Bytes) : (checksum data).length = checksumSize :=
  Bytes.length_ofNatLE ..

/-- The data of a chunk of one of the two kinds for data, with its checksum before it. -/
theorem data?_eq_some (hkind : c.kind = compressedKind ∨ c.kind = uncompressedKind)
    (h : c.data? = some data) :
    ∃ rest, c.body = checksum data ++ rest ∧ checksumSize + rest.length ≤ maxBody ∧
      data.length ≤ maxChunkData ∧
      (if c.kind = compressedKind then Block.decode rest else some rest) = some data := by
  have other : c.kind ≠ identifierKind := by
    rintro hident
    rw [hident] at hkind
    exact absurd hkind (by decide)
  rw [data?, if_neg other] at h
  split at h
  · cases h
  rename_i hplace
  obtain ⟨⟨sum, rest⟩, htake, h⟩ := Option.bind_eq_some_iff.1 h
  obtain ⟨hbody, hsum⟩ := takeExactly_eq_some htake
  -- the checks are the same for both kinds
  have checked : ((if c.kind = compressedKind then Block.decode rest else some rest).bind
      fun found => if maxChunkData < found.length ∨ sum ≠ checksum found then none
        else some found) = some data := by
    by_cases hcompressed : c.kind = compressedKind
    · simp only [if_pos hcompressed] at h ⊢
      exact h
    · simp only [if_neg hcompressed] at h ⊢
      exact h
  obtain ⟨found, hfound, hchecks⟩ := Option.bind_eq_some_iff.1 checked
  split at hchecks
  · cases hchecks
  · rename_i hsize
    cases hchecks
    rw [not_or, Decidable.not_not] at hsize
    obtain ⟨hlength, rfl⟩ := hsize
    rw [not_or, hbody, List.length_append, hsum] at hplace
    exact ⟨rest, hbody, by omega, by omega, hfound⟩

/-- The headers and lengths alone tell how much data a chunk holds. -/
theorem dataLength_eq (h : c.data? = some data) :
    isReserved c.kind = false ∧ Collector.dataLength c.kind c.body = .ok data.length ∧
      data.length ≤ maxChunkData := by
  rw [Collector.dataLength]
  by_cases hkind : c.kind = compressedKind ∨ c.kind = uncompressedKind
  · obtain ⟨rest, hbody, -, hsize, hfound⟩ := data?_eq_some hkind h
    have long : ¬ c.body.length < checksumSize := by
      rw [hbody, List.length_append, length_checksum]
      omega
    have after : c.body.drop checksumSize = rest := by
      rw [hbody, ← length_checksum data, List.drop_left]
    rcases hkind with hkind | hkind
    · rw [hkind, if_pos rfl] at hfound
      rw [hkind, if_neg (by decide), if_pos rfl, if_neg long, after,
        Block.claimedLength_of_decode hfound]
      exact ⟨rfl, rfl, hsize⟩
    · rw [hkind, if_neg (by decide), Option.some.injEq] at hfound
      rw [hkind, if_neg (by decide), if_neg (by decide), if_pos rfl, if_neg long, ← hfound, ← after,
        List.length_drop]
      refine ⟨rfl, rfl, ?_⟩
      rwa [← hfound, ← after, List.length_drop] at hsize
  · rw [data?, if_neg hkind] at h
    rw [not_or] at hkind
    rw [if_neg hkind.1, if_neg hkind.2]
    split at h
    · rename_i hident
      split at h
      · rename_i hbody
        cases h
        rw [if_pos hident, if_pos hbody, hident]
        exact ⟨rfl, rfl, Nat.zero_le _⟩
      · cases h
    · rename_i hident
      rw [if_neg hident]
      split at h
      · cases h
      · rename_i hplace
        cases h
        exact ⟨by simp_all, rfl, Nat.zero_le _⟩

theorem encode_eq (c : Chunk) : c.encode = c.kind :: Bytes.ofNatLE 3 c.body.length ++ c.body := rfl

end Chunk

/-! ## Reading a row of chunks -/

/-- A row of chunks is read back. -/
theorem readChunks_flatMap_encode {chunks : List Chunk}
    (h : ∀ c ∈ chunks, c.body.length < 2 ^ 24) :
    readChunks (chunks.flatMap Chunk.encode) = some chunks := by
  induction chunks with
  | nil => rw [List.flatMap_nil, readChunks]; simp
  | cons c chunks ih =>
    have small : c.body.length < 2 ^ 24 := h c (List.mem_cons_self ..)
    have ih := ih fun c hc => h c (List.mem_cons_of_mem _ hc)
    have size : Bytes.toNatLE (Bytes.ofNatLE 3 c.body.length) = c.body.length :=
      Bytes.toNatLE_ofNatLE_of_lt small
    simp only [Bytes.ofNatLE] at size
    rw [List.flatMap_cons, Chunk.encode_eq]
    simp only [Bytes.ofNatLE, List.cons_append, List.nil_append]
    rw [readChunks, size, List.take_left, List.drop_left, if_neg (Nat.lt_irrefl _), ih]
    rfl

theorem Fills.mapM {chunks : List Chunk} {raw : Bytes} (h : Fills chunks raw) :
    ∃ parts, chunks.mapM Chunk.data? = some parts ∧ parts.flatten = raw := by
  induction h with
  | nil => exact ⟨[], rfl, rfl⟩
  | cons hdata _ _ ih =>
    obtain ⟨parts, hparts, rfl⟩ := ih
    refine ⟨_ :: parts, ?_, List.flatten_cons⟩
    rw [List.mapM_cons, hdata, hparts]
    rfl

theorem Fills.length_body_lt {chunks : List Chunk} {raw : Bytes} (h : Fills chunks raw) :
    ∀ c ∈ chunks, c.body.length < 2 ^ 24 := by
  induction h with
  | nil => simp
  | cons hdata _ _ ih => exact List.forall_mem_cons.2 ⟨Chunk.length_body_lt hdata, ih⟩

/-- The decoder looks at the kind of the first chunk, and at the data of all of them. -/
theorem decode_flatMap_encode {chunks : List Chunk} (hbody : ∀ c ∈ chunks, c.body.length < 2 ^ 24)
    (hhead : ∀ c ∈ chunks.head?, c.kind = identifierKind) :
    decode (chunks.flatMap Chunk.encode) = (chunks.mapM Chunk.data?).map List.flatten := by
  have identified : chunks.head?.any (fun c => c.kind ≠ identifierKind) = false := by
    cases chunks with
    | nil => rfl
    | cons c chunks => simp [hhead c rfl]
  rw [decode, readChunks_flatMap_encode hbody, Option.bind_eq_bind, Option.bind_some]
  simp only [identified, Bool.false_eq_true, if_false]
  cases chunks.mapM Chunk.data? <;> rfl

/-- The frames of a payload are decoded to it. -/
theorem decode_of_isFraming {bytes raw : Bytes} (h : IsFraming bytes raw) :
    decode bytes = some raw := by
  obtain ⟨chunks, rfl, hhead, hfills⟩ := h
  obtain ⟨parts, hparts, rfl⟩ := hfills.mapM
  rw [decode_flatMap_encode hfills.length_body_lt hhead, hparts]
  rfl

end PeerCensus.Snappy
