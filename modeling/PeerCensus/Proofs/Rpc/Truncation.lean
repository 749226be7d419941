import PeerCensus.Proofs.Rpc.Exchange

/-!
# Responses cut short

A response is whole when it is made of complete chunks, and there are as many as the method has, or
the other side closed the stream right after them. A call that succeeds has read a whole response,
unless the stream breaks off inside a later chunk, or fails before it, in a way that is reported as
a close. Then, and only then, a shorter response is returned in place of an error.

Results:
* `Method.call_of_cut`: what a call comes to on a stream that breaks off after the first chunk.
* `Method.whole_iff_not_brokenOff`: the calls that return whole responses only.
* `Method.call_brokenRoots`: a response cut inside its second chunk passes for one of one chunk.
-/

namespace PeerCensus.Rpc.Method

variable {Req Resp : Type} [Ssz Req] [Ssz Resp]

/-- Between `s` and `s'` the responses were read, each from a complete chunk. There are as many as
the method has, or `s` is closed right after the last of them. -/
def Whole (m : Method Req Resp) (s : Source) (responses : List Resp) (s' : Source) : Prop :=
  ∃ chunks : List Bytes, s.After chunks.flatten s' ∧
    List.Forall₂ (IsResponse m.compression m.responseBounds) chunks responses ∧
    (responses.length = m.maxChunks ∨ s'.remaining = [] ∧ s'.ending = .closed)

/-- The source breaks off after at least one chunk, with chunks missing: what follows the last
complete chunk is not enough for another one, and it is not a close between two chunks. -/
def Cut (m : Method Req Resp) (s : Source) : Prop :=
  ∃ (chunks : List Bytes) (responses : List Resp) (tail : Bytes),
    s.remaining = chunks.flatten ++ tail ∧
      List.Forall₂ (IsResponse m.compression m.responseBounds) chunks responses ∧
      responses ≠ [] ∧ responses.length < m.maxChunks ∧
      (readChunk m.compression m.responseBounds).Starves tail atEnd ∧
      ¬ (tail = [] ∧ s.ending = .closed)

/-- The request goes out, and the source breaks off in a way that is reported as a close. -/
def BrokenOff (m : Method Req Resp) (request : Req) (stream : Duplex) : Prop :=
  m.Sends request stream.sink ∧ m.Cut stream.source ∧
    atEnd stream.source.ending = .failed .closed

/-- A call on a stream that breaks off after the first chunk succeeds, with fewer chunks than the
method has, if and only if that is reported as a close. -/
theorem call_of_cut {m : Method Req Resp} {request : Req} {stream : Duplex}
    (hsends : m.Sends request stream.sink) (hcut : m.Cut stream.source) :
    ∃ responses left, responses.length < m.maxChunks ∧
      m.call request stream =
        (if atEnd stream.source.ending = .failed .closed then .ok responses
          else .error (atEnd stream.source.ending), left) := by
  obtain ⟨chunks, responses, tail, hs, hchunks, hne, hlt, hstarves, -⟩ := hcut
  obtain ⟨left, -, hcall⟩ := call_of_starves hsends hchunks hne hlt hstarves hs
  exact ⟨responses, left, hlt, hcall⟩

/-- A response that is returned is whole, unless the stream is broken off. -/
theorem whole_of_call_ok {m : Method Req Resp} {request : Req} {stream left : Duplex}
    {responses : List Resp} (hcall : m.call request stream = (.ok responses, left))
    (hunbroken : ¬ m.BrokenOff request stream) : m.Whole stream.source responses left.source := by
  obtain ⟨hsends, chunks, tail, hafter, hchunks, hend⟩ := exists_of_call_ok hcall
  rcases hend with ⟨hlength, rfl⟩ | ⟨hlt, hne, hempty, hstarves, hclosed⟩
  · rw [List.append_nil] at hafter
    exact ⟨chunks, hafter, hchunks, .inl hlength⟩
  · by_cases hclean : tail = [] ∧ stream.source.ending = .closed
    · rw [hclean.1, List.append_nil] at hafter
      exact ⟨chunks, hafter, hchunks, .inr ⟨hempty, hafter.ending.trans hclean.2⟩⟩
    · have all := hafter.remaining
      rw [hempty, List.append_nil] at all
      have hcut : m.Cut stream.source :=
        ⟨chunks, responses, tail, all, hchunks, hne, hlt, hstarves, hclean⟩
      exact absurd ⟨hsends, hcut, hclosed⟩ hunbroken

/-- A call returns whole responses only, and an error when the response is cut, exactly if it is not
broken off in a way that is reported as a close. -/
theorem whole_iff_not_brokenOff (m : Method Req Resp) (request : Req) (stream : Duplex) :
    ((∀ responses left, m.call request stream = (.ok responses, left) →
        m.Whole stream.source responses left.source) ∧
      (m.Cut stream.source → ∃ halt left, m.call request stream = (.error halt, left))) ↔
    ¬ m.BrokenOff request stream := by
  constructor
  · rintro ⟨-, herror⟩ ⟨hsends, hcut, hclosed⟩
    obtain ⟨halt, left, hcall⟩ := herror hcut
    obtain ⟨responses, left', -, hcall'⟩ := call_of_cut hsends hcut
    rw [if_pos hclosed, hcall] at hcall'
    cases hcall'
  · intro hunbroken
    refine ⟨fun responses left hcall => whole_of_call_ok hcall hunbroken, fun hcut => ?_⟩
    by_cases hsends : m.Sends request stream.sink
    · obtain ⟨responses, left, -, hcall⟩ := call_of_cut hsends hcut
      rw [if_neg fun hclosed => hunbroken ⟨hsends, hcut, hclosed⟩] at hcall
      exact ⟨_, left, hcall⟩
    · obtain ⟨halt, left, hcall⟩ := call_of_not_sends hsends
      exact ⟨_, left, hcall⟩

/-! ## A response cut inside its second chunk -/

/-- A method for at most two roots. -/
def twoRoots : Method Root Root :=
  .fixed Root Root "/roots/1" 2

/-- A stream with one complete chunk, and of another one the code, the length and one byte. -/
def brokenRoots : Duplex :=
  ⟨.new [0 :: 32 :: List.replicate 32 1 ++ [0, 32, 2]] .closed 0, .unlimited⟩

theorem isChunk_root (b : UInt8) :
    IsChunk .plain (.exact 32) (0 :: 32 :: List.replicate 32 b) (List.replicate 32 b) :=
  ⟨32 :: List.replicate 32 b, rfl, rfl, [32], List.replicate 32 b, rfl, rfl, rfl⟩

theorem starves_brokenRoots : (readChunk .plain (.exact 32)).Starves [0, 32, 2] atEnd :=
  starves_of_cut (isChunk_root 2) (by decide) (by decide)

/-- The response of two roots, cut after the first byte of the second one, passes for a response of
one root, and the bytes of the other chunk are gone. -/
theorem call_brokenRoots :
    twoRoots.Cut brokenRoots.source ∧
      ∃ left, twoRoots.call (rootOf 0) brokenRoots = (.ok [rootOf 1], left) ∧
        ¬ twoRoots.Whole brokenRoots.source [rootOf 1] left.source := by
  have row : List.Forall₂ (IsResponse .plain (.exact 32)) [0 :: 32 :: List.replicate 32 1]
      [rootOf 1] := .cons ⟨_, isChunk_root 1, rfl⟩ .nil
  have few : [rootOf 1].length < twoRoots.maxChunks := by decide
  refine ⟨⟨_, [rootOf 1], [0, 32, 2], rfl, row, nofun, few, starves_brokenRoots, nofun⟩, ?_⟩
  obtain ⟨left, hafter, hcall⟩ :=
    @call_of_starves _ _ _ _ twoRoots (rootOf 0) brokenRoots _ _ _ rfl row nofun few
      starves_brokenRoots rfl
  refine ⟨left, hcall, ?_⟩
  rintro ⟨chunks, hafter', hchunks, -⟩
  obtain ⟨taken, ⟨payload, hchunk, -⟩, rfl⟩ : ∃ taken,
      IsResponse .plain (.exact 32) taken (rootOf 1) ∧ chunks = [taken] := by
    cases hchunks with
    | cons h hnil =>
      cases hnil
      exact ⟨_, h, rfl⟩
  -- all 37 bytes were read, but only the first 34 of them are a chunk
  obtain rfl : taken = 0 :: 32 :: List.replicate 32 1 ++ [0, 32, 2] := by
    have all := hafter'.unique hafter
    rwa [List.flatten_singleton] at all
  obtain ⟨same, -⟩ := (takes_readChunk (isChunk_root 1)).unique (takes_readChunk hchunk)
    (by decide) (List.prefix_refl _)
  exact absurd same (by decide)

end PeerCensus.Rpc.Method
