import PeerCensus.Chain.Status
import PeerCensus.Chain.Subnets

/-!
# SSZ types that can be read back

The encoding of a value has the size of its type, and whatever follows it, the value is read off its
front. A type made of such types is one too, so all that is sent in a call is.

Results:
* `Ssz.decode_encode`: a value is decoded from its encoding.
* instances of `Ssz.Lawful` for all types of the wire.
-/

namespace PeerCensus

/-- A type whose values are read back from what is written for them. -/
class Ssz.Lawful (α : Type) [Ssz α] : Prop where
  length_encode : ∀ a : α, (Ssz.encode a).length = Ssz.size α
  read_encode_append : ∀ (a : α) (rest : Bytes),
    (Ssz.read : Ssz.Reader α).run (Ssz.encode a ++ rest) = .ok (a, rest)

namespace Ssz

/-- A value is decoded from its encoding. -/
theorem decode_encode {α : Type} [Ssz α] [Lawful α] (a : α) : decode α (encode a) = .ok a := by
  have all := Lawful.read_encode_append a []
  rw [List.append_nil] at all
  rw [decode, if_pos (Lawful.length_encode a), all]
  rfl

/-- As many bytes as are wanted are taken off the front. -/
theorem run_take_append {n : Nat} (bytes : FixedBytes n) (rest : Bytes) :
    (take n).run (bytes.toList ++ rest) = .ok (bytes, rest) := by
  have enough : n ≤ (bytes.toList ++ rest).length := by
    rw [List.length_append, bytes.length_toList]
    exact Nat.le_add_right ..
  show (if h : n ≤ (bytes.toList ++ rest).length then _ else _) = _
  rw [dif_pos enough]
  have front : (bytes.toList ++ rest).take n = bytes.toList := List.take_left' bytes.length_toList
  have back : (bytes.toList ++ rest).drop n = rest := List.drop_left' bytes.length_toList
  congr 2
  exact FixedBytes.ext front

/-- Reading goes on where it stopped. -/
theorem run_bind_of_run {r : Reader α} {k : α → Reader β} {bytes rest : Bytes} {a : α}
    (h : r.run bytes = .ok (a, rest)) : (r >>= k).run bytes = (k a).run rest := by
  rw [StateT.run_bind, h]
  rfl

instance (n : Nat) : Lawful (FixedBytes n) where
  length_encode := FixedBytes.length_toList
  read_encode_append := run_take_append

instance : Lawful UInt64 where
  length_encode value := Bytes.length_ofNatLE 8 value.toNat
  read_encode_append value rest := by
    let bytes : FixedBytes 8 := ⟨Bytes.ofNatLE 8 value.toNat, Bytes.length_ofNatLE ..⟩
    have back : (Bytes.toNatLE bytes.toList).toUInt64 = value := by
      show (Bytes.toNatLE (Bytes.ofNatLE 8 value.toNat)).toUInt64 = value
      rw [Bytes.toNatLE_ofNatLE_of_lt value.toNat_lt]
      exact UInt64.ofNat_toNat
    refine (run_bind_of_run (run_take_append bytes rest)).trans ?_
    exact congrArg (fun v => Except.ok (v, rest)) back

end Ssz

instance : Ssz.Lawful ForkDigest where
  length_encode d := d.bytes.length_toList
  read_encode_append d rest := Ssz.run_bind_of_run (Ssz.run_take_append d.bytes rest)

instance : Ssz.Lawful ForkVersion where
  length_encode v := v.bytes.length_toList
  read_encode_append v rest := Ssz.run_bind_of_run (Ssz.run_take_append v.bytes rest)

instance : Ssz.Lawful Root where
  length_encode r := r.bytes.length_toList
  read_encode_append r rest := Ssz.run_bind_of_run (Ssz.run_take_append r.bytes rest)

instance : Ssz.Lawful Subnets where
  length_encode s := s.bytes.length_toList
  read_encode_append s rest := Ssz.run_bind_of_run (Ssz.run_take_append s.bytes rest)

open Ssz (run_bind_of_run) in
open Ssz.Lawful in
instance : Ssz.Lawful ForkId where
  length_encode f := by
    show (Ssz.encode f.digest ++ Ssz.encode f.nextVersion ++ Ssz.encode f.nextEpoch).length = 16
    simp only [List.length_append, length_encode]
    rfl
  read_encode_append f rest := by
    show Ssz.read.run
      (Ssz.encode f.digest ++ Ssz.encode f.nextVersion ++ Ssz.encode f.nextEpoch ++ rest) = _
    simp only [List.append_assoc]
    refine (run_bind_of_run (read_encode_append f.digest _)).trans ?_
    refine (run_bind_of_run (read_encode_append f.nextVersion _)).trans ?_
    exact run_bind_of_run (read_encode_append f.nextEpoch _)

open Ssz (run_bind_of_run) in
open Ssz.Lawful in
instance : Ssz.Lawful Status where
  length_encode s := by
    show (Ssz.encode s.forkDigest ++ Ssz.encode s.finalizedRoot ++ Ssz.encode s.finalizedEpoch ++
      Ssz.encode s.headRoot ++ Ssz.encode s.headSlot).length = 84
    simp only [List.length_append, length_encode]
    rfl
  read_encode_append s rest := by
    show Ssz.read.run (Ssz.encode s.forkDigest ++ Ssz.encode s.finalizedRoot ++
      Ssz.encode s.finalizedEpoch ++ Ssz.encode s.headRoot ++ Ssz.encode s.headSlot ++ rest) = _
    simp only [List.append_assoc]
    refine (run_bind_of_run (read_encode_append s.forkDigest _)).trans ?_
    refine (run_bind_of_run (read_encode_append s.finalizedRoot _)).trans ?_
    refine (run_bind_of_run (read_encode_append s.finalizedEpoch _)).trans ?_
    refine (run_bind_of_run (read_encode_append s.headRoot _)).trans ?_
    exact run_bind_of_run (read_encode_append s.headSlot _)

end PeerCensus
