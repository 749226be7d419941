import PeerCensus.Proofs.Record.Endpoint
import PeerCensus.Proofs.Text.Base64
import PeerCensus.Proofs.Text.Hex

/-!
# The textual forms of a node record

A text is read in hexadecimal whenever it can be, and in base64 only otherwise. Nothing is lost by
this: a signed record is a list that has room for a signature, so that its first byte is above
`0xf7`, and its base64 text begins with a character that is no hexadecimal digit. All texts of one
record, in hexadecimal or in base64, are therefore read as the same node record.

Results:
* `Rlp.exists_of_readItem_long`: how a list begins that is longer than a single byte can tell.
* `SignedRecord.exists_of_decode`: how a signed record begins.
* `NodeRecord.decodeChars_of_inBase64`: its base64 text is not read in hexadecimal.
* `NodeRecord.forms_agree`: all texts of a record mean the same.
-/

namespace PeerCensus

/-! ## How a signed record begins -/

namespace Rlp

/-- What follows the head of an item is there. -/
theorem exists_of_readItem {bytes content rest : Bytes} {isList : Bool}
    (h : readItem bytes = some (isList, content, rest)) :
    ∃ head left, readHead bytes = some (head, left) ∧ head.isList = isList ∧
      content.length = head.length ∧ head.length ≤ left.length := by
  simp only [readItem, Option.bind_eq_bind, Option.pure_def, Option.bind_none,
    Option.ite_none_left_eq_some, Option.bind_eq_some_iff, Option.some.injEq, Prod.mk.injEq, not_or,
    Nat.not_lt] at h
  obtain ⟨⟨head, left⟩, hhead, ⟨-, hle⟩, hlist, rfl, -⟩ := h
  exact ⟨head, left, hhead, hlist, by rw [List.length_take, Nat.min_eq_left hle], hle⟩

theorem length_of_readItem {bytes content rest : Bytes} {isList : Bool}
    (h : readItem bytes = some (isList, content, rest)) : content.length ≤ bytes.length := by
  obtain ⟨head, left, hhead, -, hlength, hle⟩ := exists_of_readItem h
  have hleft := length_readHead hhead
  omega

/-- A head of one byte tells of at most 55 bytes of items. -/
theorem length_le_of_readHead {b : UInt8} {tail left : Bytes} {head : Head}
    (h : readHead (b :: tail) = some (head, left)) (hlist : head.isList = true)
    (hb : b.toNat < 0xf8) : head.length ≤ 55 := by
  unfold readHead at h
  dsimp only at h
  split at h
  · rw [Option.some.injEq, Prod.mk.injEq] at h
    rw [← h.1] at hlist
    cases hlist
  split at h
  · rw [Option.some.injEq, Prod.mk.injEq] at h
    rw [← h.1] at hlist
    cases hlist
  split at h
  · simp only [Option.bind_eq_bind, Option.bind_eq_some_iff, Option.pure_def, Option.some.injEq,
      Prod.mk.injEq] at h
    obtain ⟨_, -, rfl, -⟩ := h
    cases hlist
  rw [Option.some.injEq, Prod.mk.injEq] at h
  rw [← h.1]
  show b.toNat - 0xc0 ≤ 55
  omega

/-- A list of more than 55 bytes begins with a byte that says how long its length is. -/
theorem exists_of_readItem_long {bytes content rest : Bytes}
    (h : readItem bytes = some (true, content, rest)) (hlong : 55 < content.length) :
    ∃ b tail, bytes = b :: tail ∧ 0xf8 ≤ b.toNat := by
  obtain ⟨head, left, hhead, hlist, hlength, -⟩ := exists_of_readItem h
  cases bytes with
  | nil => cases hhead
  | cons b tail =>
    refine ⟨b, tail, rfl, ?_⟩
    by_contra hb
    have := length_le_of_readHead hhead hlist (Nat.not_le.1 hb)
    omega

theorem length_of_readString {bytes content rest : Bytes}
    (h : readString bytes = some (content, rest)) : content.length ≤ bytes.length := by
  simp only [readString, Option.bind_eq_bind, Option.bind_eq_some_iff,
    Option.ite_none_left_eq_some, Option.some.injEq, Prod.mk.injEq] at h
  obtain ⟨⟨_, _, _⟩, hitem, -, rfl, -⟩ := h
  exact length_of_readItem hitem

end Rlp

theorem PublicKey.length_of_verifies {key : PublicKey} {digest signature : Bytes}
    (h : key.verifies digest signature = true) : signature.length = 64 := by
  unfold verifies at h
  dsimp only at h
  split at h
  · cases h
  · rename_i hsound
    by_contra hne
    exact hsound (.inl hne)

/-- A signed record has room for a signature, so that its first byte says how long its length is. -/
theorem SignedRecord.exists_of_decode {bytes : Bytes} {s : SignedRecord}
    (h : decode bytes = some s) : ∃ b tail, bytes = b :: tail ∧ 0xf8 ≤ b.toNat := by
  simp only [decode, Option.bind_eq_bind, Option.pure_def, Option.bind_none,
    Option.ite_none_left_eq_some, Option.bind_eq_some_iff] at h
  obtain ⟨-, ⟨isList, body, left⟩, hitem, hlist, ⟨signature, content⟩, hsignature, h⟩ := h
  obtain ⟨_, -, _, -, _, -, -, _, -, _, -, key, -, hverifies, -⟩ := h
  have hlist : isList = true := by simpa using hlist
  have hlength : signature.length = 64 := PublicKey.length_of_verifies (by simpa using hverifies)
  have hbody : signature.length ≤ body.length := Rlp.length_of_readString hsignature
  rw [hlist] at hitem
  exact Rlp.exists_of_readItem_long hitem (by omega)

namespace NodeRecord

/-! ## Texts -/

/-- The verdict on the bytes of a signed record. -/
def ofBytes (bytes : Bytes) : Except RecordError NodeRecord :=
  match SignedRecord.decode bytes with
  | some s => ofSigned s
  | none => .error .undecodable

/-- The texts of bytes in hexadecimal: digits of either case, with or without `0x` before them, and
any white space around. -/
def InHex (text : String) (bytes : Bytes) : Prop :=
  Hex.SpellsPadded text.toList bytes

/-- The texts of bytes in base64, with or without `enr:` before them, and any white space around. -/
def InBase64 (text : String) (bytes : Bytes) : Prop :=
  ∃ core, Text.Pads text.toList core ∧
    (core = Base64.encodeChars bytes ∨ core = "enr:".toList ++ Base64.encodeChars bytes)

variable {text : String} {bytes : Bytes}

/-! ## Reading texts -/

theorem bytesOfText?_of_inHex (h : InHex text bytes) : bytesOfText? text = some bytes := by
  unfold bytesOfText?
  dsimp only
  rw [Hex.decodeChars_trimChars_eq_some_iff.2 h]

theorem decodeChars_of_none {c d : Char} {rest : List Char}
    (h : Hex.digitValue? c = none ∨ Hex.digitValue? d = none) :
    Hex.decodeChars (c :: d :: rest) = none := by
  rw [Hex.decodeChars]
  rcases h with h | h
  · rw [h]
    rfl
  · rw [h]
    cases Hex.digitValue? c <;> rfl

/-- The base64 text of a signed record begins with one of the two digits that are neither letters
nor decimal digits. -/
theorem exists_encodeChars {s : SignedRecord} (h : SignedRecord.decode bytes = some s) :
    ∃ c d rest, Base64.encodeChars bytes = c :: d :: rest ∧ (c = '-' ∨ c = '_') := by
  obtain ⟨b, tail, rfl, hb⟩ := SignedRecord.exists_of_decode h
  have first : ∀ n < 256, 0xf8 ≤ n → Base64.digit (n / 4) = '-' ∨ Base64.digit (n / 4) = '_' := by
    decide +kernel
  have hfirst := first b.toNat b.toNat_lt hb
  match tail with
  | [] => exact ⟨_, _, _, rfl, hfirst⟩
  | [_] => exact ⟨_, _, _, rfl, hfirst⟩
  | _ :: _ :: _ => exact ⟨_, _, _, rfl, hfirst⟩

theorem bare_of_inBase64 {core : List Char}
    (h : core = Base64.encodeChars bytes ∨ core = "enr:".toList ++ Base64.encodeChars bytes) :
    Text.Bare core := by
  have mark : ∀ c ∈ "enr:".toList, Text.isBlank c = false := by
    simp [Text.isBlank]
  apply Text.bare_of_forall
  intro c hc
  rcases h with rfl | rfl
  · exact Base64.isBlank_of_mem_encodeChars hc
  · exact (List.mem_append.1 hc).elim (mark c) Base64.isBlank_of_mem_encodeChars

/-- A text in base64 of a signed record is never one in hexadecimal. -/
theorem decodeChars_of_inBase64 {s : SignedRecord} (hs : SignedRecord.decode bytes = some s)
    (h : InBase64 text bytes) :
    Hex.decodeChars (Hex.dropMarker (Text.trimChars text.toList)) = none := by
  obtain ⟨core, hpads, hcore⟩ := h
  obtain ⟨c, d, rest, hchars, hc⟩ := exists_encodeChars hs
  rw [Text.trimChars_of_pads hpads (bare_of_inBase64 hcore)]
  rcases hcore with rfl | rfl
  · rw [hchars]
    rcases hc with rfl | rfl
    · exact decodeChars_of_none (.inl (by decide))
    · exact decodeChars_of_none (.inl (by decide))
  · exact decodeChars_of_none (.inr (by decide))

theorem bytesOfText?_of_inBase64 {s : SignedRecord} (hs : SignedRecord.decode bytes = some s)
    (h : InBase64 text bytes) : bytesOfText? text = some bytes := by
  unfold bytesOfText?
  dsimp only
  rw [decodeChars_of_inBase64 hs h]
  obtain ⟨core, hpads, hcore⟩ := h
  obtain ⟨c, d, rest, hchars, hc⟩ := exists_encodeChars hs
  rw [Text.trimChars_of_pads hpads (bare_of_inBase64 hcore)]
  rcases hcore with rfl | rfl
  · have unmarked : "enr:".toList.isPrefixOf (Base64.encodeChars bytes) = false := by
      rw [hchars]
      rcases hc with rfl | rfl
      · rfl
      · rfl
    rw [unmarked]
    exact Base64.decode_encode bytes
  · have marked : "enr:".toList.isPrefixOf ("enr:".toList ++ Base64.encodeChars bytes) = true :=
      List.isPrefixOf_iff_prefix.2 (List.prefix_append _ _)
    rw [marked]
    exact Base64.decode_encode bytes

theorem parse_of_bytesOfText? (h : bytesOfText? text = some bytes) :
    parse text = ofBytes bytes := by
  unfold parse ofBytes
  rw [h]
  rfl

/-- All texts of a record mean the same. A text in hexadecimal is read as the verdict on its bytes.
So is a text in base64 if its bytes are a signed record, and this is never taken for a text in
hexadecimal. -/
theorem forms_agree (bytes : Bytes) :
    (∀ text, InHex text bytes → parse text = ofBytes bytes) ∧
      ∀ s, SignedRecord.decode bytes = some s → ∀ text, InBase64 text bytes →
        parse text = ofSigned s ∧ (∀ other, InHex other bytes → parse other = parse text) ∧
          ∀ others, ¬ InHex text others := by
  have hex : ∀ text, InHex text bytes → parse text = ofBytes bytes := fun text h =>
    parse_of_bytesOfText? (bytesOfText?_of_inHex h)
  refine ⟨hex, fun s hs text htext => ?_⟩
  have base64 : parse text = ofBytes bytes :=
    parse_of_bytesOfText? (bytesOfText?_of_inBase64 hs htext)
  refine ⟨?_, ?_, ?_⟩
  · rw [base64, ofBytes, hs]
  · intro other hother
    rw [hex other hother, base64]
  · intro others hothers
    have hnone := decodeChars_of_inBase64 hs htext
    rw [Hex.decodeChars_trimChars_eq_some_iff.2 hothers] at hnone
    cases hnone

end NodeRecord

namespace TwoAddresses

/-- The digits of the record with capital letters. -/
def capitals : List Char := (Hex.encodeChars bytes).map Char.toUpper

theorem inHex_capitals : NodeRecord.InHex
    (String.ofList (' ' :: '0' :: 'x' :: capitals ++ ['\n'])) bytes := by
  have small : capitals.map Char.toLower = Hex.encodeChars bytes := by decide +kernel
  unfold NodeRecord.InHex
  rw [String.toList_ofList]
  exact ⟨'0' :: 'x' :: capitals, ⟨[' '], ['\n'], rfl, List.forall_mem_singleton.2 rfl,
    List.forall_mem_singleton.2 rfl⟩, capitals, .inr rfl, small⟩

theorem inBase64_encode : NodeRecord.InBase64 ("enr:" ++ Base64.encode bytes) bytes := by
  refine ⟨_, Text.pads_self _, .inr ?_⟩
  simp [Base64.encode]

end TwoAddresses

/-- A record with two addresses, in capital letters with a marker, a blank in front and a line break
behind, and in base64 with a marker. -/
theorem NodeRecord.forms_agree_capitals :
    SignedRecord.decode TwoAddresses.bytes = some TwoAddresses.signed ∧
      ∃ hex base64, InHex hex TwoAddresses.bytes ∧ InBase64 base64 TwoAddresses.bytes ∧
        hex = String.ofList (' ' :: '0' :: 'x' :: TwoAddresses.capitals ++ ['\n']) ∧
        base64 = "enr:" ++ Base64.encode TwoAddresses.bytes ∧
        parse hex = ofSigned TwoAddresses.signed ∧ parse base64 = parse hex := by
  obtain ⟨-, texts⟩ := forms_agree TwoAddresses.bytes
  obtain ⟨hread, hsame, -⟩ := texts _ TwoAddresses.decode_bytes _ TwoAddresses.inBase64_encode
  have hhex := hsame _ TwoAddresses.inHex_capitals
  exact ⟨TwoAddresses.decode_bytes, _, _, TwoAddresses.inHex_capitals,
    TwoAddresses.inBase64_encode, rfl, rfl, hhex.trans hread, hhex.symm⟩

end PeerCensus
