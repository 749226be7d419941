import Mathlib.Data.List.Forall2
import PeerCensus.Proofs.Snappy.Encoding

/-!
# What a collector accepts

Whoever has the bytes at hand can feed a collector with what it wants, over and over, until it wants
nothing more. It then accepts exactly the payloads of its declared length: nothing at all if that is
zero, and otherwise a stream identifier and chunks that hold as much data as was declared, all of it
only with the last one. It stops right after that chunk, whatever follows.

Results:
* `Chunk.data?_eq_some_iff`: which chunks have a place in a stream, and what data they hold.
* `fills_iff`: the chunks of a payload are those whose data adds up to it at the last one.
* `Collector.drive_eq_ok_iff`: the bytes that a collector accepts, and what it makes of them.
-/

namespace PeerCensus.Snappy

/-! ## The grammar -/

/-- The data that a chunk holds. -/
inductive Chunk.Holds : Chunk → Bytes → Prop
  /-- A stream identifier, which may come up again. -/
  | identifier : Holds .identifier []
  /-- A chunk that is passed over. -/
  | skippable {kind : UInt8} {body : Bytes} : 0x80 ≤ kind → kind ≤ 0xfe → body.length ≤ maxBody →
    Holds ⟨kind, body⟩ []
  /-- A block of the data after its checksum. -/
  | compressed {block data : Bytes} : Block.decode block = some data →
    data.length ≤ maxChunkData → checksumSize + block.length ≤ maxBody →
    Holds ⟨compressedKind, checksum data ++ block⟩ data
  /-- The data as it is after its checksum. -/
  | uncompressed {data : Bytes} : data.length ≤ maxChunkData →
    Holds ⟨uncompressedKind, checksum data ++ data⟩ data

/-- Whether `bytes` are the frames in which `raw` is sent as a payload of `declared` bytes: none if
nothing is declared, and otherwise a stream identifier and chunks that hold `raw`, which has the
declared length. That length is reached with the last chunk, and not before. -/
def IsPayload (declared : Nat) (bytes raw : Bytes) : Prop :=
  (declared = 0 ∧ bytes = [] ∧ raw = []) ∨
    ∃ (chunks : List Chunk) (parts : List Bytes),
      bytes = (Chunk.identifier :: chunks).flatMap Chunk.encode ∧
      List.Forall₂ Chunk.Holds chunks parts ∧ raw = parts.flatten ∧ raw.length = declared ∧
      0 < declared ∧ ∀ n < chunks.length, (parts.take n).flatten.length < declared

/-! ## Single chunks -/

namespace Chunk

variable {c : Chunk} {data : Bytes}

/-- The kinds that are passed over are those that are neither for a stream identifier nor for data,
and not reserved. -/
theorem skippable_iff {kind : UInt8} :
    0x80 ≤ kind ∧ kind ≤ 0xfe ↔ kind ≠ identifierKind ∧
      ¬ (kind = compressedKind ∨ kind = uncompressedKind) ∧ ¬ isReserved kind := by
  simp only [isReserved, Bool.and_eq_true, decide_eq_true_eq, UInt8.le_iff_toNat_le,
    identifierKind, compressedKind, uncompressedKind, ne_eq, ← UInt8.toNat_inj]
  simp only [UInt8.toNat_ofNat]
  have := kind.toNat_lt
  omega

theorem data?_of_holds (h : c.Holds data) : c.data? = some data := by
  cases h with
  | identifier => rfl
  | @skippable kind body low high hsize =>
    obtain ⟨hident, hdata, hreserved⟩ := skippable_iff.1 ⟨low, high⟩
    rw [data?, if_neg hident, if_neg (not_or.2 ⟨hreserved, Nat.not_lt.2 hsize⟩), if_neg hdata]
  | compressed hdecode hdata hsize => exact data?_of_found (.inl rfl) hdecode hdata hsize
  | uncompressed hdata => exact data?_of_found (.inr rfl) rfl hdata (add_length_le_maxBody hdata)

theorem holds_of_data? (h : c.data? = some data) : c.Holds data := by
  obtain ⟨kind, body⟩ := c
  by_cases hkind : kind = compressedKind ∨ kind = uncompressedKind
  · obtain ⟨rest, rfl, hsize, hdata, hfound⟩ := data?_eq_some hkind h
    rcases hkind with rfl | rfl
    · rw [if_pos rfl] at hfound
      exact .compressed hfound hdata hsize
    · rw [if_neg (show uncompressedKind ≠ compressedKind by decide)] at hfound
      cases hfound
      exact .uncompressed hdata
  · rw [data?, if_neg hkind] at h
    split at h
    · rename_i hident
      cases hident
      split at h
      · rename_i hbody
        cases hbody
        cases h
        exact .identifier
      · cases h
    · rename_i hident
      split at h
      · cases h
      · rename_i hplace
        cases h
        obtain ⟨low, high⟩ := skippable_iff.2 ⟨hident, hkind, fun hr => hplace (.inl hr)⟩
        exact .skippable low high (Nat.not_lt.1 fun hlong => hplace (.inr hlong))

/-- Which chunks have a place in a stream, and what data they hold. -/
theorem data?_eq_some_iff : c.data? = some data ↔ c.Holds data :=
  ⟨holds_of_data?, data?_of_holds⟩

end Chunk

/-! ## Rows of chunks -/

/-- The chunks of a payload are those whose data adds up to it at the last one. -/
theorem fills_iff {chunks : List Chunk} {raw : Bytes} :
    Fills chunks raw ↔ ∃ parts, List.Forall₂ Chunk.Holds chunks parts ∧ raw = parts.flatten ∧
      ∀ n < chunks.length, (parts.take n).flatten.length < raw.length := by
  induction chunks generalizing raw with
  | nil =>
    constructor
    · rintro ⟨⟩
      exact ⟨[], .nil, rfl, by simp⟩
    · rintro ⟨parts, hparts, rfl, -⟩
      cases hparts
      exact .nil
  | cons c chunks ih =>
    constructor
    · intro h
      cases h with
      | @cons _ _ part raw hpart hmissing hrest =>
        obtain ⟨parts, hparts, rfl, hpartial⟩ := ih.1 hrest
        refine ⟨part :: parts, .cons (Chunk.data?_eq_some_iff.1 hpart) hparts, rfl, ?_⟩
        intro n hn
        cases n with
        | zero => exact List.length_pos_iff.2 hmissing
        | succ n =>
          have := hpartial n (Nat.lt_of_succ_lt_succ hn)
          rw [List.take_succ_cons, List.flatten_cons, List.length_append, List.length_append]
          omega
    · rintro ⟨parts, hparts, rfl, hpartial⟩
      cases hparts with
      | @cons _ part _ parts hpart hparts =>
        have hmissing : 0 < (part ++ parts.flatten).length := hpartial 0 (Nat.succ_pos _)
        refine .cons (Chunk.data?_eq_some_iff.2 hpart) (List.length_pos_iff.1 hmissing) ?_
        refine ih.2 ⟨parts, hparts, rfl, fun n hn => ?_⟩
        have := hpartial (n + 1) (Nat.succ_lt_succ hn)
        rw [List.take_succ_cons, List.flatten_cons, List.flatten_cons, List.length_append,
          List.length_append] at this
        omega

/-- The frames of a payload are the frames in which it is sent with its own length declared. -/
theorem isFraming_iff {declared : Nat} {bytes raw : Bytes} :
    IsFraming bytes raw ∧ raw.length = declared ↔ IsPayload declared bytes raw := by
  constructor
  · rintro ⟨⟨chunks, rfl, hhead, hfills⟩, rfl⟩
    cases hfills with
    | nil => exact .inl ⟨rfl, rfl, rfl⟩
    | @cons c chunks part raw hpart hmissing hrest =>
      have first : c = Chunk.identifier ∧ part = [] := by
        have hident := hhead c rfl
        cases Chunk.data?_eq_some_iff.1 hpart with
        | identifier => exact ⟨rfl, rfl⟩
        | skippable low high => exact absurd hident (Chunk.skippable_iff.1 ⟨low, high⟩).1
        | compressed =>
          exact absurd hident (show compressedKind ≠ identifierKind by decide)
        | uncompressed =>
          exact absurd hident (show uncompressedKind ≠ identifierKind by decide)
      obtain ⟨rfl, rfl⟩ := first
      obtain ⟨parts, hparts, rfl, hpartial⟩ := fills_iff.1 hrest
      exact .inr ⟨chunks, parts, rfl, hparts, rfl, rfl, List.length_pos_iff.2 hmissing, hpartial⟩
  · rintro (⟨rfl, rfl, rfl⟩ | ⟨chunks, parts, rfl, hparts, rfl, rfl, hpos, hpartial⟩)
    · exact ⟨⟨[], rfl, by simp, .nil⟩, rfl⟩
    · refine ⟨⟨Chunk.identifier :: chunks, rfl, by rintro c ⟨⟩; rfl, ?_⟩, rfl⟩
      have filled := fills_iff.2 ⟨parts, hparts, rfl, hpartial⟩
      have first : Chunk.identifier.data? = some [] := rfl
      exact .cons first (List.length_pos_iff.1 hpos) filled

/-! ## Feeding a collector -/

namespace Collector

variable {c next : Collector}

/-- What is taken is all that was wanted. A header is not empty, and after a body comes a header. -/
theorem length_of_feed {wanted : Nat} {piece : Bytes} (hw : c.wants = some wanted)
    (h : c.feed piece = .ok next) :
    piece.length = wanted ∧
      ((c.phase = .header ∧ 0 < wanted) ∨ (c.phase ≠ .header ∧ next.phase = .header)) := by
  cases hp : c.phase with
  | header =>
    obtain ⟨-, rfl⟩ := wants_eq_some_of_header hp hw
    simp only [feed, hp] at h
    obtain ⟨kind, l0, l1, l2, rfl, -⟩ := takeHeader_eq_ok h
    exact ⟨rfl, .inl ⟨rfl, by decide⟩⟩
  | body kind length =>
    have notHeader : Phase.body kind length ≠ .header := by
      intro h
      cases h
    refine ⟨?_, .inr ⟨notHeader, phase_feed_of_body hp h⟩⟩
    simp only [wants, hp, Option.some.injEq] at hw
    simp only [feed, hp] at h
    split at h
    · rename_i hlength
      rw [hlength, hw]
    · cases h

/-- Feeds a collector with what it wants from the front of `bytes` until it wants nothing more. What
comes of it is the payload, and the bytes that are left. -/
def drive (c : Collector) (bytes : Bytes) : Except FrameError (Bytes × Bytes) :=
  match _wanted : c.wants with
  | none => c.finish.map fun raw => (raw, bytes)
  | some wanted =>
    match _fed : c.feed (bytes.take wanted) with
    | .error e => .error e
    | .ok next => drive next (bytes.drop wanted)
termination_by 2 * bytes.length + if c.phase = .header then 0 else 1
decreasing_by
  -- a header takes four bytes; a body may take none, but a header is next
  obtain ⟨hlength, ⟨hheader, hpos⟩ | ⟨hbody, hheader⟩⟩ := length_of_feed _wanted _fed
  · rw [List.length_take] at hlength
    rw [List.length_drop, if_pos hheader]
    split <;> omega
  · rw [List.length_drop, if_pos hheader, if_neg hbody]
    omega

theorem drive_of_complete {bytes raw : Bytes} (hw : c.wants = none) (hraw : c.finish = .ok raw) :
    drive c bytes = .ok (raw, bytes) := by
  rw [drive]
  split
  · rw [hraw]
    rfl
  · rename_i hwants
    rw [hw] at hwants
    cases hwants

theorem drive_append {piece bytes : Bytes} (hw : c.wants = some piece.length)
    (hfeed : c.feed piece = .ok next) : drive c (piece ++ bytes) = drive next bytes := by
  rw [drive]
  split
  · rename_i hwants
    rw [hw] at hwants
    cases hwants
  · rename_i wanted hwants
    obtain rfl : wanted = piece.length := Option.some.inj (hwants.symm.trans hw)
    split
    · rename_i hfed
      rw [List.take_left, hfeed] at hfed
      cases hfed
    · rename_i hfed
      rw [List.take_left, hfeed] at hfed
      cases hfed
      rw [List.drop_left]

/-- Feeding a collector from `bytes` is taking pieces off its front until it is complete. -/
theorem drive_eq_ok_iff_fed {bytes raw rest : Bytes} :
    drive c bytes = .ok (raw, rest) ↔ ∃ pieces c', bytes = pieces.flatten ++ rest ∧
      Fed c pieces c' ∧ c'.wants = none ∧ c'.finish = .ok raw := by
  constructor
  · intro h
    fun_induction drive c bytes with
    | case1 c bytes hw =>
      cases hraw : c.finish with
      | error e =>
        rw [hraw] at h
        cases h
      | ok raw =>
        rw [hraw] at h
        cases h
        exact ⟨[], c, rfl, .nil c, hw, hraw⟩
    | case2 c bytes wanted hw e hfeed => cases h
    | case3 c bytes wanted hw next hfeed ih =>
      obtain ⟨pieces, c', hbytes, hfed, hnone, hraw⟩ := ih h
      obtain ⟨hlength, -⟩ := length_of_feed hw hfeed
      have hwants : c.wants = some (bytes.take wanted).length := by rw [hlength, hw]
      refine ⟨bytes.take wanted :: pieces, c', ?_, .cons hwants hfeed hfed, hnone, hraw⟩
      rw [List.flatten_cons, List.append_assoc, ← hbytes, List.take_append_drop]
  · rintro ⟨pieces, c', rfl, hfed, hw, hraw⟩
    induction hfed with
    | nil c => exact drive_of_complete hw hraw
    | cons hwants hfeed _ ih =>
      rw [List.flatten_cons, List.append_assoc, drive_append hwants hfeed]
      exact ih hw hraw

/-- A collector for a payload of `declared` bytes accepts exactly the frames of such payloads, and
leaves what follows them. -/
theorem drive_eq_ok_iff (declared : Nat) (bytes raw rest : Bytes) :
    drive (new declared) bytes = .ok (raw, rest) ↔
      ∃ framed, bytes = framed ++ rest ∧ IsPayload declared framed raw := by
  rw [drive_eq_ok_iff_fed]
  constructor
  · rintro ⟨pieces, c', rfl, hfed, hw, hraw⟩
    exact ⟨pieces.flatten, rfl, isFraming_iff.1 (isFraming_of_fed hfed hw hraw)⟩
  · rintro ⟨framed, rfl, hpayload⟩
    obtain ⟨hframing, rfl⟩ := isFraming_iff.2 hpayload
    obtain ⟨pieces, c', rfl, hfed, hw, hraw⟩ := fed_of_isFraming hframing
    exact ⟨pieces, c', rfl, hfed, hw, hraw⟩

end Collector

end PeerCensus.Snappy
