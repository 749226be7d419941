import PeerCensus.Proofs.Rpc.Consumption
import PeerCensus.Proofs.Rpc.Exchange

/-!
# Chunks cut short

A chunk is valid when its code is followed by a frame of a payload that the code allows: one within
the bounds of the method after a success, a message otherwise. The reader takes a valid chunk to its
last byte, so on less than all of it, wherever it is cut, it has taken everything and wants more.
When the stream is closed there, that is all that it reports: nothing of what it has read so far is
judged.

Results:
* `takes_readChunk_of_isAnswer`: the reader takes a valid chunk, whatever its code.
* `IsAnswer.closed_of_cut`: a valid chunk that is cut short is a closed stream.
* `IsAnswer.eq_of_prefix`: no valid chunk goes on where another one ends.
* `chunk_closed_of_cut`: so it is with all that is written.
-/

namespace PeerCensus.Rpc

variable {compression : Compression} {bounds : SizeBounds}

/-- Whether `bytes` are a valid chunk with the code and the payload. -/
def IsAnswer (compression : Compression) (bounds : SizeBounds) (bytes : Bytes) (code : ResultCode)
    (payload : Bytes) : Prop :=
  ∃ frame, bytes = code.toByte :: frame ∧
    IsFrame compression (inForce bounds code) frame payload

/-- The reader takes a valid chunk, whatever its code. -/
theorem takes_readChunk_of_isAnswer {bytes payload : Bytes} {code : ResultCode}
    (h : IsAnswer compression bounds bytes code payload) :
    (readChunk compression bounds).Takes bytes (answer code payload) := by
  obtain ⟨frame, rfl, hframe⟩ := h
  have judged : (readAfterCode compression bounds code).Takes (frame ++ []) (answer code payload) := by
    rw [readAfterCode_eq]
    exact (takes_readFrame hframe).bind (Reader.takes_ofExcept _)
  rw [List.append_nil, ← readAfterByte_toByte] at judged
  rw [readChunk_eq]
  exact (takes_code _).bind_cons judged

/-- What is written for a payload after a code that allows it is a valid chunk. -/
theorem isAnswer_encodeChunk {code : ResultCode} {payload : Bytes}
    (hbounds : (inForce bounds code).contains payload.length = true)
    (hlength : payload.length < 2 ^ 63) :
    IsAnswer compression bounds (encodeChunk compression code payload) code payload :=
  ⟨_, rfl, isFrame_encodeFrame hbounds hlength⟩

namespace IsAnswer

variable {bytes bytes' payload payload' cut : Bytes} {code code' : ResultCode}

/-- A valid chunk that is cut short, wherever that is, is a closed stream: all of it is taken. -/
theorem closed_of_cut (h : IsAnswer compression bounds bytes code payload) (hp : cut <+: bytes)
    (hne : cut ≠ bytes) {s : Source} (hs : s.remaining = cut) (hending : s.ending = .closed) :
    ∃ s', readChunk compression bounds s = (.error (.failed .closed), s') ∧ s.After cut s' := by
  have starves : (readChunk compression bounds).Starves cut atEnd :=
    (decides_readChunk compression bounds).starves_of_cut (takes_readChunk_of_isAnswer h) hp hne
  obtain ⟨s', hread, hafter⟩ := starves s hs
  rw [hending] at hread
  exact ⟨s', hread, hafter⟩

/-- No valid chunk goes on where another one ends, and each has one code and one payload. -/
theorem eq_of_prefix (h : IsAnswer compression bounds bytes code payload)
    (h' : IsAnswer compression bounds bytes' code' payload') (hp : bytes <+: bytes') :
    bytes = bytes' ∧ code = code' ∧ payload = payload' := by
  have taken := takes_readChunk_of_isAnswer h
  have taken' := takes_readChunk_of_isAnswer h'
  obtain ⟨rfl, -⟩ := taken.unique taken' hp (List.prefix_refl _)
  obtain ⟨frame, rfl, hframe⟩ := h
  obtain ⟨frame', heq, hframe'⟩ := h'
  obtain ⟨hbyte, rfl⟩ := List.cons.inj heq
  have hcode : some code = some code' := by
    rw [← ResultCode.ofByte?_toByte code, ← ResultCode.ofByte?_toByte code', hbyte]
  obtain rfl := Option.some.inj hcode
  -- the message of an error does not show its bytes, but the reader of the frame does
  obtain ⟨-, hpayload⟩ := (takes_readFrame hframe).unique (takes_readFrame hframe')
    (List.prefix_refl _) (List.prefix_refl _)
  exact ⟨rfl, rfl, Except.ok.inj hpayload⟩

end IsAnswer

/-- Whatever code and payload a chunk is written for, it is written as a valid chunk, and if only a
part of it arrives before the stream is closed, be it nothing at all, this is all taken and reported
as a closed stream. No valid chunk is the beginning of another one. (No payload in memory has `2 ^ 63`
bytes.) -/
theorem chunk_closed_of_cut (compression : Compression) (bounds : SizeBounds) :
    (∀ (code : ResultCode) (payload : Bytes) (writing : SizeBounds),
      (inForce bounds code).contains payload.length = true → payload.length < 2 ^ 63 →
      writing.contains payload.length = true →
      ∃ left : Sink, writeChunk compression code writing payload .unlimited = (.ok (), left) ∧
        IsAnswer compression bounds left.sent code payload ∧
        ∀ cut, cut <+: left.sent → cut ≠ left.sent →
          ∀ s : Source, s.remaining = cut → s.ending = .closed →
            ∃ s', readChunk compression bounds s = (.error (.failed .closed), s') ∧
              s.After cut s') ∧
    ∀ (chunk chunk' payload payload' : Bytes) (code code' : ResultCode),
      IsAnswer compression bounds chunk code payload →
      IsAnswer compression bounds chunk' code' payload' → chunk <+: chunk' → chunk = chunk' := by
  constructor
  · intro code payload writing hbounds hlength hwriting
    have valid : IsAnswer compression bounds (encodeChunk compression code payload) code payload :=
      isAnswer_encodeChunk hbounds hlength
    refine ⟨_, writeChunk_of_unlimited hwriting rfl rfl, valid, ?_⟩
    intro cut hp hne s hs hending
    exact valid.closed_of_cut hp hne hs hending
  · intro chunk chunk' payload payload' code code' h h' hp
    exact (h.eq_of_prefix h' hp).1

/-- A message in snappy frames that is cut inside the checksum of its data. -/
theorem chunk_closed_of_cut_message :
    messageBounds.contains [110, 111].length = true ∧ [110, 111].length < 2 ^ 63 ∧
      ∃ left : Sink,
        writeChunk .snappy .serverError messageBounds [110, 111] .unlimited = (.ok (), left) ∧
        left.sent.length = 22 ∧
        ∃ s', readChunk .snappy (.exact 84) (.new [left.sent.take 18] .closed 0) =
            (.error (.failed .closed), s') ∧
          Source.After (.new [left.sent.take 18] .closed 0) (left.sent.take 18) s' := by
  obtain ⟨left, hwritten, -, hclosed⟩ :=
    (chunk_closed_of_cut .snappy (.exact 84)).1 .serverError [110, 111] messageBounds
      (by decide) (by decide) (by decide)
  have length : left.sent.length = 22 := by
    rw [← congrArg (fun outcome => outcome.2.sent.length) hwritten]
    decide +kernel
  refine ⟨by decide, by decide, left, hwritten, length, ?_⟩
  have front : (Source.new [left.sent.take 18] .closed 0).remaining = left.sent.take 18 := by
    simp [Source.remaining, Source.new]
  refine hclosed (left.sent.take 18) (List.take_prefix ..) ?_ _ front rfl
  intro same
  have := congrArg List.length same
  rw [List.length_take] at this
  omega

end PeerCensus.Rpc
