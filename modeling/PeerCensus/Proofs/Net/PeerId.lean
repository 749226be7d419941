import PeerCensus.Net.PeerId
import PeerCensus.Proofs.Curve.Encoding
import PeerCensus.Proofs.Text.Base58

/-!
# Names of peers

The text of a peer id is read back as the bytes it was made of, so that a key and its peer id belong
to each other. The numbers whose texts are peer ids lie so close together that their first digits
are the same.

Results:
* `ofPublicKey_inj`: keys are equal exactly if their peer ids are.
* `exists_text_ofPublicKey`: all peer ids begin alike.
-/

namespace PeerCensus.PeerId

/-- Keys are equal exactly if their peer ids are. -/
theorem ofPublicKey_inj {key key' : PublicKey} : ofPublicKey key = ofPublicKey key' ↔ key = key' := by
  constructor
  · intro h
    have bytes : identityBytes key = identityBytes key' :=
      Base58.encode_injective (congrArg PeerId.text h)
    exact PublicKey.compressed_injective (List.append_cancel_left bytes)
  · rintro rfl
    rfl

/-- Where the number of an identity multihash lies. -/
theorem toNatBE_identityBytes (key : PublicKey) :
    ∃ low < 4 * Nat.pow 256 32,
      Bytes.toNatBE (identityBytes key) = 0x250802122100 * Nat.pow 256 32 + low := by
  refine ⟨Bytes.toNatBE key.compressed, ?_, ?_⟩
  · have tag : key.parityTag.toNat < 4 := by
      rw [PublicKey.parityTag]
      split <;> decide
    have x := PublicKey.lt_pow_of_lt_p key.x_lt
    have compressed : Bytes.toNatBE key.compressed = key.parityTag.toNat * Nat.pow 256 32 + key.x := by
      rw [PublicKey.compressed, ← List.singleton_append, Bytes.toNatBE_append,
        Bytes.toNatBE_ofNatBE_of_lt x, Bytes.length_ofNatBE]
      simp [Bytes.toNatBE]
    have below := Nat.mul_le_mul_right (Nat.pow 256 32) (Nat.le_of_lt_succ tag)
    omega
  · rw [identityBytes, Bytes.toNatBE_append, PublicKey.length_compressed]
    have power : Nat.pow 256 33 = 256 * Nat.pow 256 32 := Nat.mul_comm ..
    rw [power, ← Nat.mul_assoc]
    rfl

/-- All peer ids begin alike. -/
theorem exists_text_ofPublicKey (key : PublicKey) :
    ∃ rest, (ofPublicKey key).text = "16Uiu2" ++ rest := by
  obtain ⟨low, hlow, hnumber⟩ := toNatBE_identityBytes key
  have quotient : Bytes.toNatBE (identityBytes key) / Nat.pow 58 47 = 61991445 := by
    have power : Nat.pow 256 32 = 2 ^ 256 := by decide
    have base : Nat.pow 58 47 = 58 ^ 47 := rfl
    rw [power] at hnumber hlow
    rw [base]
    omega
  obtain ⟨rest, htext⟩ := Base58.exists_append_of_div 47 (identityBytes key)
  have zeros : ((identityBytes key).takeWhile (· == 0)).length = 1 := rfl
  have digits : Base58.digits 61991445 = [1, 52, 41, 27, 5] := by
    simp [Base58.digits]
  rw [quotient, zeros, digits] at htext
  refine ⟨String.ofList rest, htext.trans ?_⟩
  rw [String.ofList_append]
  rfl

end PeerCensus.PeerId
