import PeerCensus.Proofs.Snappy.Collecting

/-!
# Framed streams are frames

The framed stream that is written for some data is a stream identifier and one chunk for every 65536
bytes. These are the frames of the data.

Results:
* `Chunk.data?_ofData`: a chunk gives back its data.
* `length_chunks_le`: data is cut into no more pieces than needed.
* `isFraming_encode`: what is written for data are the frames of it.
-/

namespace PeerCensus.Snappy

namespace Chunk

theorem takeExactly_checksum (data rest : Bytes) :
    Element.takeExactly checksumSize (checksum data ++ rest) = some (checksum data, rest) := by
  exact Element.takeExactly_append (length_checksum data)

/-- The data of a chunk, from what is found after its checksum. -/
theorem data?_of_found {kind : UInt8} {data rest : Bytes}
    (hkind : kind = compressedKind ∨ kind = uncompressedKind)
    (hfound : (if kind = compressedKind then Block.decode rest else some rest) = some data)
    (hdata : data.length ≤ maxChunkData) (hsize : checksumSize + rest.length ≤ maxBody) :
    data? ⟨kind, checksum data ++ rest⟩ = some data := by
  have other : kind ≠ identifierKind := by
    rcases hkind with rfl | rfl <;> decide
  have placed : ¬ (isReserved kind = true ∨ maxBody < (checksum data ++ rest).length) := by
    rintro (hreserved | hlong)
    · rcases hkind with rfl | rfl <;> exact absurd hreserved (by decide)
    · rw [List.length_append, length_checksum] at hlong
      omega
  have checked : ¬ (maxChunkData < data.length ∨ checksum data ≠ checksum data) := by
    rintro (hlong | hsum)
    · omega
    · exact hsum rfl
  rw [data?, if_neg other, if_neg placed, if_pos hkind, takeExactly_checksum]
  by_cases hcompressed : kind = compressedKind
  · rw [if_pos hcompressed] at hfound
    simp only [Option.bind_eq_bind, Option.bind_some, if_pos hcompressed, hfound, if_neg checked]
    rfl
  · rw [if_neg hcompressed] at hfound
    cases hfound
    simp only [Option.bind_eq_bind, Option.bind_some, if_neg hcompressed, if_neg checked]
    rfl

/-- At most as much as a chunk may hold fits into a body after a checksum. -/
theorem add_length_le_maxBody {rest : Bytes} (h : rest.length ≤ maxChunkData) :
    checksumSize + rest.length ≤ maxBody := by
  simp only [maxChunkData, maxBody, checksumSize] at h ⊢
  omega

/-- A chunk gives back its data. -/
theorem data?_ofData {data : Bytes} (h : data.length ≤ maxChunkData) :
    (ofData data).data? = some data := by
  rw [ofData]
  split
  · exact data?_of_found (.inr rfl) rfl h (add_length_le_maxBody h)
  · rename_i hsaved
    exact data?_of_found (.inl rfl) (Block.decode_encode h) h (add_length_le_maxBody (by omega))

end Chunk

/-! ## Data cut into pieces -/

theorem mem_chunks {n : Nat} {raw piece : Bytes} (h : piece ∈ Bytes.chunks n raw) :
    piece ≠ [] ∧ piece.length ≤ n + 1 := by
  fun_induction Bytes.chunks n raw with
  | case1 => cases h
  | case2 b rest ih =>
    rcases List.mem_cons.1 h with rfl | h
    · exact ⟨List.cons_ne_nil _ _, Nat.succ_le_succ (List.length_take_le ..)⟩
    · exact ih h

theorem length_chunks_le (n : Nat) (raw : Bytes) :
    (Bytes.chunks n raw).length * (n + 1) ≤ raw.length + n := by
  fun_induction Bytes.chunks n raw with
  | case1 => simp
  | case2 b rest ih =>
    rw [List.length_drop] at ih
    rw [List.length_cons, List.length_cons, Nat.succ_mul]
    rcases Nat.le_total n rest.length with h | h
    · omega
    · rw [List.drop_eq_nil_of_le h, Bytes.chunks, List.length_nil, Nat.zero_mul, Nat.zero_add]
      omega

theorem fills_ofData {pieces : List Bytes}
    (h : ∀ piece ∈ pieces, piece ≠ [] ∧ piece.length ≤ maxChunkData) :
    Fills (pieces.map Chunk.ofData) pieces.flatten := by
  induction pieces with
  | nil => exact .nil
  | cons piece pieces ih =>
    obtain ⟨⟨hne, hsize⟩, hmore⟩ := List.forall_mem_cons.1 h
    exact .cons (Chunk.data?_ofData hsize) (List.append_ne_nil_of_left_ne_nil hne _) (ih hmore)

/-! ## What is written -/

/-- The chunks that are written for data. -/
def chunksOf (raw : Bytes) : List Chunk :=
  if raw = [] then []
  else Chunk.identifier :: (Bytes.chunks (maxChunkData - 1) raw).map Chunk.ofData

theorem encode_eq (raw : Bytes) : encode raw = (chunksOf raw).flatMap Chunk.encode := by
  rw [encode, chunksOf]
  split
  · rfl
  · rw [List.flatMap_cons, List.flatMap_map]

/-- What is written for data are the frames of it. -/
theorem isFraming_encode (raw : Bytes) : IsFraming (encode raw) raw := by
  refine ⟨chunksOf raw, encode_eq raw, ?_, ?_⟩
  · rw [chunksOf]
    split
    · nofun
    · rintro c hc
      cases hc
      rfl
  · rw [chunksOf]
    split
    · rename_i hempty
      rw [hempty]
      exact .nil
    · rename_i hne
      have sized : ∀ piece ∈ Bytes.chunks (maxChunkData - 1) raw,
          piece ≠ [] ∧ piece.length ≤ maxChunkData := fun piece h => mem_chunks h
      have filled := fills_ofData sized
      rw [Bytes.flatten_chunks] at filled
      exact .cons (show Chunk.identifier.data? = some [] from rfl) hne filled

end PeerCensus.Snappy
