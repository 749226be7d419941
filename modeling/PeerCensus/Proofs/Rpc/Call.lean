import PeerCensus.Proofs.Rpc.Response

/-!
# What a call comes to

A call whose request goes out reads complete chunks off the front of its stream. What it comes to
depends on what follows them: nothing that matters if there are enough, or a chunk that is refused,
or the end of the stream with another chunk unfinished.

Results:
* `call_of_enough`: with as many chunks as the method has, they are the answer.
* `call_of_error`: a chunk that is refused ends the call with its error.
* `call_of_starves`: the end of the stream ends the call, with the chunks before it if that is
  reported as a close.
* `call_of_closed`: complete chunks are the answer when the stream is closed right after them.
* `exists_of_call_ok`: the answers that a call returns.
-/

namespace PeerCensus.Rpc.Method

variable {Req Resp : Type} [Ssz Req] [Ssz Resp] {m : Method Req Resp} {request : Req}
  {stream : Duplex} {chunks : List Bytes} {responses : List Resp}

/-- Whether the request of a call goes out. -/
def Sends (m : Method Req Resp) (request : Req) (sink : Sink) : Prop :=
  (writeRequest m.compression m.requestBounds (Ssz.encode request) sink).1 = .ok ()

/-- A call leaves its writing side as the request leaves it. -/
theorem sink_call (m : Method Req Resp) (request : Req) (stream : Duplex) :
    (m.call request stream).2.sink =
      (writeRequest m.compression m.requestBounds (Ssz.encode request) stream.sink).2 := by
  rw [call]
  rcases writeRequest m.compression m.requestBounds (Ssz.encode request) stream.sink with
    ⟨e | ⟨⟩, sink⟩ <;> rfl

theorem call_eq_of_write {sink : Sink}
    (h : writeRequest m.compression m.requestBounds (Ssz.encode request) stream.sink =
      (.ok (), sink)) :
    m.call request stream =
      ((readResponses m.compression m.responseBounds m.maxChunks false stream.source).1,
        ⟨(@readResponses Resp _ m.compression m.responseBounds m.maxChunks false stream.source).2,
          sink⟩) := by
  rw [call, h]
  rfl

theorem call_eq_of_write_error {halt : Halt RpcError} {sink : Sink}
    (h : writeRequest m.compression m.requestBounds (Ssz.encode request) stream.sink =
      (.error halt, sink)) :
    m.call request stream = (.error halt, ⟨stream.source, sink⟩) := by
  rw [call, h]

/-- A call whose request goes out comes to what its response comes to. -/
theorem call_eq_of_sends (h : m.Sends request stream.sink) :
    ∃ sink, m.call request stream =
      ((readResponses m.compression m.responseBounds m.maxChunks false stream.source).1,
        ⟨(@readResponses Resp _ m.compression m.responseBounds m.maxChunks false stream.source).2,
          sink⟩) :=
  ⟨_, call_eq_of_write (Prod.ext h rfl)⟩

/-- A call that does not get its request out comes to nothing. -/
theorem call_of_not_sends (h : ¬ m.Sends request stream.sink) :
    ∃ halt left, m.call request stream = (.error halt, left) := by
  rw [Sends] at h
  rcases hw : writeRequest m.compression m.requestBounds (Ssz.encode request) stream.sink with
    ⟨halt | ⟨⟩, sink⟩
  · exact ⟨halt, _, call_eq_of_write_error hw⟩
  · exact absurd (by rw [hw]) h

/-- With as many chunks as the method has, they are the answer, and nothing after them is taken. -/
theorem call_of_enough {rest : Bytes} (hsends : m.Sends request stream.sink)
    (hchunks : List.Forall₂ (IsResponse m.compression m.responseBounds) chunks responses)
    (hlength : responses.length = m.maxChunks)
    (hs : stream.source.remaining = chunks.flatten ++ rest) :
    ∃ left, stream.source.After chunks.flatten left.source ∧
      m.call request stream = (.ok responses, left) := by
  obtain ⟨s', hafter, hread⟩ := readResponses_append 0 false hchunks hs
  obtain ⟨sink, hcall⟩ := call_eq_of_sends hsends
  refine ⟨⟨s', sink⟩, hafter, ?_⟩
  rw [hcall, ← hlength, ← Nat.add_zero responses.length, hread, readResponses_zero]
  simp [prepend, Except.map]

/-- A chunk that is refused ends the call with its error. -/
theorem call_of_error {taken rest : Bytes} {e : RpcError} (hsends : m.Sends request stream.sink)
    (hchunks : List.Forall₂ (IsResponse m.compression m.responseBounds) chunks responses)
    (hlt : responses.length < m.maxChunks)
    (htaken : (readChunk m.compression m.responseBounds).Takes taken (.error e)) (he : e ≠ .closed)
    (hs : stream.source.remaining = chunks.flatten ++ (taken ++ rest)) :
    ∃ left, stream.source.After (chunks.flatten ++ taken) left.source ∧
      m.call request stream = (.error (.failed e), left) := by
  obtain ⟨missing, hmissing⟩ := Nat.exists_eq_add_of_lt hlt
  obtain ⟨s₁, hafter, hread⟩ := readResponses_append (missing + 1) false hchunks hs
  obtain ⟨s₂, hafter', hread'⟩ := readResponses_of_error Resp missing
    (false || !responses.isEmpty) htaken he (hafter.rest_eq hs)
  obtain ⟨sink, hcall⟩ := call_eq_of_sends hsends
  refine ⟨⟨s₂, sink⟩, hafter.trans hafter', ?_⟩
  rw [hcall, hmissing, Nat.add_assoc, hread, hread']
  rfl

/-- The end of the stream ends the call: with the chunks before it when it is reported as a close,
whatever stands between them and the end, and with that error otherwise. -/
theorem call_of_starves {tail : Bytes} (hsends : m.Sends request stream.sink)
    (hchunks : List.Forall₂ (IsResponse m.compression m.responseBounds) chunks responses)
    (hne : responses ≠ []) (hlt : responses.length < m.maxChunks)
    (hstarves : (readChunk m.compression m.responseBounds).Starves tail atEnd)
    (hs : stream.source.remaining = chunks.flatten ++ tail) :
    ∃ left, stream.source.After (chunks.flatten ++ tail) left.source ∧
      m.call request stream =
        (if atEnd stream.source.ending = .failed .closed then .ok responses
          else .error (atEnd stream.source.ending), left) := by
  obtain ⟨missing, hmissing⟩ := Nat.exists_eq_add_of_lt hlt
  obtain ⟨s₁, hafter, hread⟩ := readResponses_append (missing + 1) false hchunks hs
  have rest := hafter.rest_eq hs
  obtain ⟨s₂, hafter', hread'⟩ :=
    readResponses_of_starves Resp missing (false || !responses.isEmpty) (rest ▸ hstarves)
  obtain ⟨sink, hcall⟩ := call_eq_of_sends hsends
  refine ⟨⟨s₂, sink⟩, hafter.trans (rest ▸ hafter'), ?_⟩
  have started : (false || !responses.isEmpty) = true := by simpa using hne
  rw [hcall, hmissing, Nat.add_assoc, hread, hread', hafter.ending]
  simp only [started, true_and, prepend]
  split
  · simp [Except.map]
  · rfl

/-- Complete chunks are the answer when the stream is closed right after them. -/
theorem call_of_closed (hsends : m.Sends request stream.sink)
    (hchunks : List.Forall₂ (IsResponse m.compression m.responseBounds) chunks responses)
    (hne : responses ≠ []) (hle : responses.length ≤ m.maxChunks)
    (hs : stream.source.remaining = chunks.flatten) (hclosed : stream.source.ending = .closed) :
    ∃ left, stream.source.After chunks.flatten left.source ∧
      m.call request stream = (.ok responses, left) := by
  rw [← List.append_nil chunks.flatten] at hs
  rcases Nat.lt_or_eq_of_le hle with hlt | hlength
  · obtain ⟨left, hafter, hcall⟩ :=
      call_of_starves hsends hchunks hne hlt (starves_nil m.compression m.responseBounds) hs
    rw [hclosed, if_pos (show atEnd .closed = .failed .closed from rfl)] at hcall
    rw [List.append_nil] at hafter
    exact ⟨left, hafter, hcall⟩
  · exact call_of_enough hsends hchunks hlength hs

/-- The answers that a call returns: complete chunks, as many as the method has, or some of them
with an end of the stream after them that is reported as a close, whatever stands before that end. -/
theorem exists_of_call_ok {left : Duplex} (h : m.call request stream = (.ok responses, left)) :
    m.Sends request stream.sink ∧
      ∃ chunks tail, stream.source.After (chunks.flatten ++ tail) left.source ∧
        List.Forall₂ (IsResponse m.compression m.responseBounds) chunks responses ∧
        (responses.length = m.maxChunks ∧ tail = [] ∨
          responses.length < m.maxChunks ∧ responses ≠ [] ∧ left.source.remaining = [] ∧
            (readChunk m.compression m.responseBounds).Starves tail atEnd ∧
            atEnd stream.source.ending = .failed .closed) := by
  by_cases hsends : m.Sends request stream.sink
  · refine ⟨hsends, ?_⟩
    obtain ⟨sink, hcall⟩ := call_eq_of_sends hsends
    rcases hread : @readResponses Resp _ m.compression m.responseBounds m.maxChunks false
      stream.source with ⟨result, source⟩
    rw [hcall, hread] at h
    cases h
    obtain ⟨chunks, tail, hafter, hchunks, hend⟩ := exists_of_readResponses_ok hread
    refine ⟨chunks, tail, hafter, hchunks, ?_⟩
    rcases hend with henough | ⟨hlt, hne, hrest⟩
    · exact .inl henough
    · exact .inr ⟨hlt, hne.resolve_left nofun, hrest⟩
  · obtain ⟨halt, left', hcall⟩ := call_of_not_sends hsends
    rw [hcall] at h
    cases h

end PeerCensus.Rpc.Method
