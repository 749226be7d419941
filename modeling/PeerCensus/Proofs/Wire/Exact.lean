import Mathlib.Algebra.Group.Nat.Defs
import PeerCensus.Proofs.Wire.Ssz

/-!
# Values and byte strings of one length

For each type of the wire the values are the byte strings of one length: a value is written as such a
string and read back from it, and any such string is what some value is written as. So reading ends
where the next field begins, whatever the bytes are, and it never wants more than there is. A byte
string of any other length is refused.

Results:
* instances of `Ssz.Onto` for all types of the wire: any bytes of the right number are an encoding.
* `Ssz.exact_of_onto`: values and byte strings of one length are the same.
* `Ssz.wire_exact`: they are for all types of the wire, with each field at its own place.
-/

namespace PeerCensus

/-- The bytes of a number, least significant first. -/
theorem Bytes.getElem?_ofNatLE {n i : Nat} (h : i < n) (value : Nat) :
    (Bytes.ofNatLE n value)[i]? = some (value / 256 ^ i).toUInt8 := by
  induction n generalizing i value with
  | zero => exact absurd h (Nat.not_lt_zero i)
  | succ n ih =>
    cases i with
    | zero => simp [ofNatLE]
    | succ i =>
      rw [ofNatLE, List.getElem?_cons_succ, ih (Nat.lt_of_succ_lt_succ h), Nat.div_div_eq_div_mul,
        Nat.pow_succ, Nat.mul_comm]

/-- Whether `part` stands in `whole` from `offset` on. -/
def Bytes.Stands (part : Bytes) (offset : Nat) (whole : Bytes) : Prop :=
  ∃ before after, whole = before ++ part ++ after ∧ before.length = offset

namespace Bytes.Stands

variable {part whole before : Bytes} {n offset : Nat}

theorem self (part : Bytes) : part.Stands 0 part :=
  ⟨[], [], (List.append_nil part).symm, rfl⟩

theorem front (part after : Bytes) : part.Stands 0 (part ++ after) :=
  ⟨[], after, rfl, rfl⟩

/-- What is put in front moves each part by its length. -/
theorem behind (h : part.Stands offset whole) (hlength : before.length = n) :
    part.Stands (n + offset) (before ++ whole) := by
  obtain ⟨more, after, rfl, rfl⟩ := h
  refine ⟨before ++ more, after, ?_, ?_⟩
  · simp only [List.append_assoc]
  · rw [List.length_append, hlength]

end Bytes.Stands

namespace Ssz

/-- A type for which any bytes of the right number are the encoding of a value. -/
class Onto (α : Type) [Ssz α] : Prop where
  exists_encode : ∀ bytes : Bytes, bytes.length = size α → ∃ a : α, encode a = bytes

/-- A type whose values are the same as the byte strings of length `n`. -/
structure Exact (α : Type) [Ssz α] (n : Nat) : Prop where
  size_eq : size α = n
  length_encode : ∀ a : α, (encode a).length = n
  /-- A value is read back. -/
  decode_encode : ∀ a : α, decode α (encode a) = .ok a
  /-- Any bytes of the right number are what the value read from them is written as. -/
  encode_decode : ∀ bytes : Bytes, bytes.length = n → ∃ a, decode α bytes = .ok a ∧ encode a = bytes
  /-- Any other number of bytes is refused. -/
  refused : ∀ bytes : Bytes, bytes.length ≠ n →
    decode α bytes = .error (.malformedPayload n bytes.length)
  /-- Off a longer string exactly the first `n` bytes are read, so that the reader is never short of
  bytes when there are enough for the value. -/
  read_front : ∀ bytes : Bytes, n ≤ bytes.length →
    ∃ a : α, read.run bytes = .ok (a, bytes.drop n) ∧ encode a = bytes.take n

section

variable {α : Type} [Ssz α] [Onto α]

/-- Enough bytes begin with the encoding of a value. -/
theorem exists_encode_append {n : Nat} {bytes : Bytes} (h : bytes.length = size α + n) :
    ∃ (a : α) (rest : Bytes), bytes = encode a ++ rest ∧ rest.length = n := by
  obtain ⟨a, ha⟩ : ∃ a : α, encode a = bytes.take (size α) :=
    Onto.exists_encode _ (by rw [List.length_take]; omega)
  refine ⟨a, bytes.drop (size α), ?_, by rw [List.length_drop]; omega⟩
  rw [ha, List.take_append_drop]

/-- Values and byte strings of one length are the same if each value is read back from what is written
for it, and any bytes are written for some value. -/
theorem exact_of_onto [Lawful α] : Exact α (size α) where
  size_eq := rfl
  length_encode := Lawful.length_encode
  decode_encode := Ssz.decode_encode
  encode_decode bytes h := by
    obtain ⟨a, rfl⟩ := Onto.exists_encode (α := α) bytes h
    exact ⟨a, Ssz.decode_encode a, rfl⟩
  refused _ h := decode_of_length_ne h
  read_front bytes h := by
    obtain ⟨rest, hrest⟩ := Nat.exists_eq_add_of_le h
    obtain ⟨a, rest, rfl, -⟩ := exists_encode_append (α := α) hrest
    have length := Lawful.length_encode a
    refine ⟨a, ?_, ?_⟩
    · rw [Lawful.read_encode_append, List.drop_left' length]
    · rw [List.take_left' length]

end

instance (n : Nat) : Onto (FixedBytes n) where
  exists_encode bytes h := ⟨⟨bytes, h⟩, rfl⟩

instance : Onto UInt64 where
  exists_encode bytes h := by
    have fits : Bytes.toNatLE bytes < 2 ^ 64 := by
      have := Bytes.toNatLE_lt bytes
      rwa [h] at this
    refine ⟨(Bytes.toNatLE bytes).toUInt64, ?_⟩
    have value : (Bytes.toNatLE bytes).toUInt64.toNat = Bytes.toNatLE bytes :=
      UInt64.toNat_ofNat_of_lt' fits
    have back := Bytes.ofNatLE_toNatLE bytes
    rw [h] at back
    show Bytes.ofNatLE 8 _ = bytes
    rw [value]
    exact back

end Ssz

open Ssz (encode exists_encode_append)

instance : Ssz.Onto ForkDigest where
  exists_encode bytes h := ⟨⟨⟨bytes, h⟩⟩, rfl⟩

instance : Ssz.Onto ForkVersion where
  exists_encode bytes h := ⟨⟨⟨bytes, h⟩⟩, rfl⟩

instance : Ssz.Onto Root where
  exists_encode bytes h := ⟨⟨⟨bytes, h⟩⟩, rfl⟩

instance : Ssz.Onto Subnets where
  exists_encode bytes h := ⟨⟨⟨bytes, h⟩⟩, rfl⟩

instance : Ssz.Onto ForkId where
  exists_encode bytes h := by
    obtain ⟨digest, bytes₁, rfl, h₁⟩ := exists_encode_append (α := ForkDigest) (n := 12) h
    obtain ⟨version, bytes₂, rfl, h₂⟩ := exists_encode_append (α := ForkVersion) (n := 8) h₁
    obtain ⟨epoch, rfl⟩ := Ssz.Onto.exists_encode (α := UInt64) bytes₂ h₂
    exact ⟨⟨digest, version, epoch⟩, List.append_assoc ..⟩

instance : Ssz.Onto Status where
  exists_encode bytes h := by
    obtain ⟨digest, bytes₁, rfl, h₁⟩ := exists_encode_append (α := ForkDigest) (n := 80) h
    obtain ⟨finalizedRoot, bytes₂, rfl, h₂⟩ := exists_encode_append (α := Root) (n := 48) h₁
    obtain ⟨epoch, bytes₃, rfl, h₃⟩ := exists_encode_append (α := UInt64) (n := 40) h₂
    obtain ⟨headRoot, bytes₄, rfl, h₄⟩ := exists_encode_append (α := Root) (n := 8) h₃
    obtain ⟨slot, rfl⟩ := Ssz.Onto.exists_encode (α := UInt64) bytes₄ h₄
    refine ⟨⟨digest, finalizedRoot, epoch, headRoot, slot⟩, ?_⟩
    show encode digest ++ encode finalizedRoot ++ encode epoch ++ encode headRoot ++ encode slot = _
    simp only [List.append_assoc]

/-! ## Places -/

theorem Ssz.length_encode_word (v : UInt64) : (encode v).length = 8 :=
  Ssz.Lawful.length_encode v

/-- The fields of a fork id stand one after the other. -/
theorem ForkId.stands (f : ForkId) : f.digest.bytes.toList.Stands 0 (encode f) ∧
    f.nextVersion.bytes.toList.Stands 4 (encode f) ∧ (encode f.nextEpoch).Stands 8 (encode f) := by
  have fields : encode f =
      f.digest.bytes.toList ++ (f.nextVersion.bytes.toList ++ encode f.nextEpoch) :=
    List.append_assoc ..
  have digest := f.digest.bytes.length_toList
  have version := f.nextVersion.bytes.length_toList
  rw [fields]
  exact ⟨.front .., (Bytes.Stands.front ..).behind digest,
    ((Bytes.Stands.self _).behind version).behind digest⟩

/-- The fields of a status stand one after the other. -/
theorem Status.stands (s : Status) : s.forkDigest.bytes.toList.Stands 0 (encode s) ∧
    s.finalizedRoot.bytes.toList.Stands 4 (encode s) ∧
    (encode s.finalizedEpoch).Stands 36 (encode s) ∧
    s.headRoot.bytes.toList.Stands 44 (encode s) ∧ (encode s.headSlot).Stands 76 (encode s) := by
  have fields : encode s = s.forkDigest.bytes.toList ++ (s.finalizedRoot.bytes.toList ++
      (encode s.finalizedEpoch ++ (s.headRoot.bytes.toList ++ encode s.headSlot))) := by
    show s.forkDigest.bytes.toList ++ s.finalizedRoot.bytes.toList ++ encode s.finalizedEpoch ++
      s.headRoot.bytes.toList ++ encode s.headSlot = _
    simp only [List.append_assoc]
  have digest := s.forkDigest.bytes.length_toList
  have finalizedRoot := s.finalizedRoot.bytes.length_toList
  have epoch := Ssz.length_encode_word s.finalizedEpoch
  have headRoot := s.headRoot.bytes.length_toList
  rw [fields]
  exact ⟨.front .., (Bytes.Stands.front ..).behind digest,
    ((Bytes.Stands.front ..).behind finalizedRoot).behind digest,
    (((Bytes.Stands.front ..).behind epoch).behind finalizedRoot).behind digest,
    ((((Bytes.Stands.self _).behind headRoot).behind epoch).behind finalizedRoot).behind digest⟩

/-- For each type of the wire, values and byte strings of one length are the same, and all other byte
strings are refused. Fixed bytes are written as they are, integers least significant byte first, and
the fields of a fork id and of a status one after the other in their order, so that each has its own
place. -/
theorem Ssz.wire_exact :
    (∀ n, Exact (FixedBytes n) n) ∧ Exact UInt64 8 ∧ Exact ForkDigest 4 ∧ Exact ForkVersion 4 ∧
      Exact Root 32 ∧ Exact Subnets 8 ∧ Exact ForkId 16 ∧ Exact Status 84 ∧
    (∀ (n : Nat) (bytes : FixedBytes n), encode bytes = bytes.toList) ∧
    (∀ d : ForkDigest, encode d = d.bytes.toList) ∧ (∀ v : ForkVersion, encode v = v.bytes.toList) ∧
    (∀ r : Root, encode r = r.bytes.toList) ∧ (∀ s : Subnets, encode s = s.bytes.toList) ∧
    (∀ (v : UInt64) (i : Fin 8), (encode v)[i.val]? = some (v.toNat / 256 ^ i.val).toUInt8) ∧
    (∀ f : ForkId, f.digest.bytes.toList.Stands 0 (encode f) ∧
      f.nextVersion.bytes.toList.Stands 4 (encode f) ∧
      (encode f.nextEpoch).Stands 8 (encode f)) ∧
    ∀ s : Status, s.forkDigest.bytes.toList.Stands 0 (encode s) ∧
      s.finalizedRoot.bytes.toList.Stands 4 (encode s) ∧
      (encode s.finalizedEpoch).Stands 36 (encode s) ∧
      s.headRoot.bytes.toList.Stands 44 (encode s) ∧
      (encode s.headSlot).Stands 76 (encode s) := by
  refine ⟨fun n => exact_of_onto, exact_of_onto, exact_of_onto, exact_of_onto, exact_of_onto,
    exact_of_onto, exact_of_onto, exact_of_onto, fun _ _ => rfl, fun _ => rfl, fun _ => rfl,
    fun _ => rfl, fun _ => rfl, ?_, ForkId.stands, Status.stands⟩
  intro v i
  exact Bytes.getElem?_ofNatLE i.isLt v.toNat

end PeerCensus
