import PeerCensus.Proofs.Rpc.Response

/-!
# Frames read back

What is written for a payload is read as that payload, by whoever reads a request and by whoever
reads a chunk of a success, in whatever pieces it arrives. The reader takes the frame to its last
byte and leaves what stands after it, and its limit for snappy frames is never in the way.

Results:
* `readRequest_encodeFrame`: a frame is read back, and what follows it is left.
* `readChunk_encodeFrame`: so is a frame after the code of a success.
* `encodeFrame_reads_back`: both of them, and the limit that holds for snappy frames.
-/

namespace PeerCensus.Rpc

variable {compression : Compression} {bounds : SizeBounds} {payload : Bytes}

/-- A reader that takes some bytes leaves those after them. -/
theorem exists_of_takes {r : Reader RpcError Bytes} {taken rest : Bytes} {s : Source}
    (h : r.Takes taken (.ok payload)) (hs : s.remaining = taken ++ rest) :
    ∃ s', r s = (.ok payload, s') ∧ s.After taken s' ∧ s'.remaining = rest := by
  obtain ⟨s', hread, hafter⟩ := h s rest hs
  exact ⟨s', hread, hafter, hafter.rest_eq hs⟩

/-- A frame that was written is read back, and what follows it is left. -/
theorem readRequest_encodeFrame {rest : Bytes} {s : Source}
    (hframe : IsFrame compression bounds (encodeFrame compression payload) payload)
    (hs : s.remaining = encodeFrame compression payload ++ rest) :
    ∃ s', readRequest compression bounds s = (.ok payload, s') ∧
      s.After (encodeFrame compression payload) s' ∧ s'.remaining = rest :=
  exists_of_takes (takes_readFrame hframe) hs

/-- A frame that was written after the code of a success is read back, and what follows it is left. -/
theorem readChunk_encodeFrame {rest : Bytes} {s : Source}
    (hframe : IsFrame compression bounds (encodeFrame compression payload) payload)
    (hs : s.remaining = 0 :: encodeFrame compression payload ++ rest) :
    ∃ s', readChunk compression bounds s = (.ok payload, s') ∧
      s.After (0 :: encodeFrame compression payload) s' ∧ s'.remaining = rest :=
  exists_of_takes (takes_readChunk ⟨_, rfl, hframe⟩) hs

/-- The frame of a payload is read back as that payload, as a request and after the code of a
success, in whatever pieces it arrives; exactly what stands after it is left. The frames that snappy
makes of a payload are never longer than the reader's limit. (Lengths are words of 64 bits.) -/
theorem encodeFrame_reads_back (hbounds : bounds.contains payload.length = true)
    (hlength : payload.length < 2 ^ 64)
    (hlimit : compression = .snappy → ∃ limit, Snappy.maxEncodedLength payload.length = some limit)
    (rest : Bytes) :
    (∀ s : Source, s.remaining = encodeFrame compression payload ++ rest →
      ∃ s', readRequest compression bounds s = (.ok payload, s') ∧
        s.After (encodeFrame compression payload) s' ∧ s'.remaining = rest) ∧
    (∀ s : Source, s.remaining = 0 :: encodeFrame compression payload ++ rest →
      ∃ s', readChunk compression bounds s = (.ok payload, s') ∧
        s.After (0 :: encodeFrame compression payload) s' ∧ s'.remaining = rest) ∧
    (∀ limit, Snappy.maxEncodedLength payload.length = some limit →
      (Snappy.encode payload).length ≤ limit) := by
  have hframe : IsFrame compression bounds (encodeFrame compression payload) payload :=
    isFrame_encodeFrame_of_limit hbounds hlength hlimit
  refine ⟨?_, ?_, ?_⟩
  · intro s hs
    exact readRequest_encodeFrame hframe hs
  · intro s hs
    exact readChunk_encodeFrame hframe hs
  · intro limit hlimit
    exact Snappy.length_encode_le hlimit

/-- Three bytes in snappy frames, with two bytes of something else after them. -/
theorem encodeFrame_reads_back_three :
    (SizeBounds.exact 3).contains [7, 8, 9].length = true ∧ [7, 8, 9].length < 2 ^ 64 ∧
      Snappy.maxEncodedLength [7, 8, 9].length = some 53 ∧
      ∀ s : Source, s.remaining = 0 :: encodeFrame .snappy [7, 8, 9] ++ [1, 84] →
        ∃ s', readChunk .snappy (.exact 3) s = (.ok [7, 8, 9], s') ∧
          s.After (0 :: encodeFrame .snappy [7, 8, 9]) s' ∧ s'.remaining = [1, 84] :=
  ⟨by decide, by decide, by decide,
    (encodeFrame_reads_back (by decide) (by decide) (fun _ => ⟨53, by decide⟩) [1, 84]).2.1⟩

end PeerCensus.Rpc
