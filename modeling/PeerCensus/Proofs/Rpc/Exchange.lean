import PeerCensus.Proofs.Rpc.Call
import PeerCensus.Proofs.Wire.Ssz

/-!
# A call and its answer

What a call writes, the other side reads as the request. What the other side writes, chunk by chunk,
the call reads as the same responses in the same order, or as the error that stands after them, and
it takes no byte more. This holds for all methods for requests and responses of fixed size, with and
without compression.

Results:
* `isResponse_encodeChunk`: what is written for a response is a complete chunk with it.
* `Method.serve_of_unlimited`: what is written for responses is a row of such chunks.
* `Method.readRequest_of_call`, `Method.call_of_served`, `Method.call_of_refused`: what one side
  writes is what the other reads.
* `Method.exchange`: both sides of a call understand each other.
-/

namespace PeerCensus

theorem Sink.writeAll_of_unlimited {s : Sink} (h : s.limit = none) (bytes : Bytes) :
    s.writeAll bytes = (.ok (), { s with sent := s.sent ++ bytes }) := by
  simp only [Sink.writeAll, h]

namespace Rpc

variable {compression : Compression} {bounds : SizeBounds}

theorem writeRequest_of_unlimited {s : Sink} {payload : Bytes}
    (hbounds : bounds.contains payload.length = true) (hlimit : s.limit = none)
    (hclose : s.closingHalt = none) (hdelay : s.delay = 0) :
    writeRequest compression bounds payload s =
      (.ok (), { s with sent := s.sent ++ encodeFrame compression payload, closed := true }) := by
  rw [writeRequest, if_pos hbounds, Sink.ready_of_settled hdelay,
    Sink.writeAll_of_unlimited hlimit]
  simp only [Sink.flush, hlimit, Sink.close, hclose]

theorem writeChunk_of_unlimited {s : Sink} {code : ResultCode} {payload : Bytes}
    (hbounds : bounds.contains payload.length = true) (hlimit : s.limit = none)
    (hdelay : s.delay = 0) :
    writeChunk compression code bounds payload s =
      (.ok (), { s with sent := s.sent ++ encodeChunk compression code payload }) := by
  rw [writeChunk, if_pos hbounds, Sink.ready_of_settled hdelay, Sink.writeAll_of_unlimited hlimit]
  simp only [Sink.flush, hlimit]

theorem contains_exact (n : Nat) : (SizeBounds.exact n).contains n = true := by
  simp [SizeBounds.contains, SizeBounds.exact]

variable {Req Resp : Type} [Ssz Req] [Ssz Resp]

/-- What is written for a response is a complete chunk with it. -/
theorem isResponse_encodeChunk [Ssz.Lawful Resp] (hsize : Ssz.size Resp < 2 ^ 63)
    (response : Resp) : IsResponse compression (.exact (Ssz.size Resp))
      (encodeChunk compression .success (Ssz.encode response)) response := by
  have length := Ssz.Lawful.length_encode response
  refine ⟨Ssz.encode response, ⟨_, rfl, isFrame_encodeFrame ?_ ?_⟩, Ssz.decode_encode response⟩
  · rw [length]
    exact contains_exact _
  · rwa [length]

theorem forall₂_encodeChunk [Ssz.Lawful Resp] (hsize : Ssz.size Resp < 2 ^ 63)
    (responses : List Resp) :
    List.Forall₂ (IsResponse compression (.exact (Ssz.size Resp)))
      (responses.map fun response => encodeChunk compression .success (Ssz.encode response))
      responses := by
  induction responses with
  | nil => exact .nil
  | cons response responses ih => exact .cons (isResponse_encodeChunk hsize response) ih

namespace Method

/-- Whether `m` is built for requests and responses of fixed size and at most `n` chunks, with or
without compression. -/
def IsFixed (m : Method Req Resp) (n : Nat) : Prop :=
  ∃ protocol, m = .fixed Req Resp protocol n ∨ m = (Method.fixed Req Resp protocol n).compressed

/-- Writes a chunk for each response. -/
def serve (m : Method Req Resp) : List Resp → Sink → Except (Halt RpcError) Unit × Sink
  | [], s => (.ok (), s)
  | response :: responses, s =>
    match writeChunk m.compression .success m.responseBounds (Ssz.encode response) s with
    | (.error halt, s) => (.error halt, s)
    | (.ok (), s) => serve m responses s

variable {m : Method Req Resp} {n : Nat}

theorem IsFixed.eq (h : m.IsFixed n) :
    m.requestBounds = .exact (Ssz.size Req) ∧ m.responseBounds = .exact (Ssz.size Resp) ∧
      m.maxChunks = n := by
  obtain ⟨protocol, rfl | rfl⟩ := h <;> exact ⟨rfl, rfl, rfl⟩

/-- What is written for responses is a row of chunks. -/
theorem serve_of_unlimited [Ssz.Lawful Resp] {s : Sink} (hm : m.IsFixed n)
    (hlimit : s.limit = none) (hdelay : s.delay = 0) (responses : List Resp) :
    m.serve responses s = (.ok (), { s with sent := s.sent ++ (responses.map fun response =>
      encodeChunk m.compression .success (Ssz.encode response)).flatten }) := by
  induction responses generalizing s with
  | nil => simp [serve]
  | cons response responses ih =>
    have fits : m.responseBounds.contains (Ssz.encode response).length = true := by
      rw [hm.eq.2.1, Ssz.Lawful.length_encode]
      exact contains_exact _
    let next : Sink :=
      { s with sent := s.sent ++ encodeChunk m.compression .success (Ssz.encode response) }
    have rest := @ih next hlimit hdelay
    rw [serve, writeChunk_of_unlimited fits hlimit hdelay]
    refine rest.trans ?_
    simp only [next, List.map_cons, List.flatten_cons, List.append_assoc]

/-- A request is written in full to a sink that accepts everything. -/
theorem writeRequest_of_isFixed [Ssz.Lawful Req] (hm : m.IsFixed n) (request : Req) :
    writeRequest m.compression m.requestBounds (Ssz.encode request) .unlimited =
      (.ok (), { Sink.unlimited with
        sent := encodeFrame m.compression (Ssz.encode request)
        closed := true }) := by
  have fits : m.requestBounds.contains (Ssz.encode request).length = true := by
    rw [hm.eq.1, Ssz.Lawful.length_encode]
    exact contains_exact _
  exact writeRequest_of_unlimited fits rfl rfl rfl

theorem sends_of_isFixed [Ssz.Lawful Req] (hm : m.IsFixed n) (request : Req) :
    m.Sends request .unlimited := by
  rw [Sends, writeRequest_of_isFixed hm request]

/-- A call writes the frame of its request. -/
theorem sent_call [Ssz.Lawful Req] (hm : m.IsFixed n) (request : Req) (source : Source) :
    (m.call request ⟨source, .unlimited⟩).2.sink.sent =
      encodeFrame m.compression (Ssz.encode request) := by
  rw [sink_call, writeRequest_of_isFixed hm request]

/-- The request that a call writes is read back. -/
theorem readRequest_of_call [Ssz.Lawful Req] (hm : m.IsFixed n) (hreq : Ssz.size Req < 2 ^ 63)
    (request : Req) {received : Source}
    (hreceived : received.remaining = encodeFrame m.compression (Ssz.encode request)) :
    ∃ left, readRequest m.compression m.requestBounds received =
        (.ok (Ssz.encode request), left) ∧
      received.After (encodeFrame m.compression (Ssz.encode request)) left := by
  have length := Ssz.Lawful.length_encode request
  have frame : IsFrame m.compression m.requestBounds
      (encodeFrame m.compression (Ssz.encode request)) (Ssz.encode request) :=
    isFrame_encodeFrame (by rw [hm.eq.1, length]; exact contains_exact _) (by rwa [length])
  exact takes_readFrame frame received [] (by rw [hreceived, List.append_nil])

theorem forall₂_served [Ssz.Lawful Resp] (hm : m.IsFixed n) (hresp : Ssz.size Resp < 2 ^ 63)
    (responses : List Resp) :
    List.Forall₂ (IsResponse m.compression m.responseBounds)
      (responses.map fun response => encodeChunk m.compression .success (Ssz.encode response))
      responses := by
  rw [hm.eq.2.1]
  exact forall₂_encodeChunk hresp responses

/-- The responses that are written before the stream is closed are returned. -/
theorem call_of_served [Ssz.Lawful Req] [Ssz.Lawful Resp] (hm : m.IsFixed n)
    (hresp : Ssz.size Resp < 2 ^ 63) (request : Req) {responses : List Resp}
    (hpos : 1 ≤ responses.length) (hle : responses.length ≤ n) :
    ∃ served, m.serve responses .unlimited = (.ok (), served) ∧
      ∀ source : Source, source.remaining = served.sent → source.ending = .closed →
        ∃ left, m.call request ⟨source, .unlimited⟩ = (.ok responses, left) ∧
          source.After served.sent left.source := by
  refine ⟨_, serve_of_unlimited hm rfl rfl responses, fun source hsource hclosed => ?_⟩
  simp only [Sink.unlimited, List.nil_append] at hsource ⊢
  have enough : responses.length ≤ m.maxChunks := by rwa [hm.eq.2.2]
  obtain ⟨left, hafter, hcall⟩ := @call_of_closed _ _ _ _ m request ⟨source, .unlimited⟩ _ _
    (sends_of_isFixed hm request) (forall₂_served hm hresp responses)
    (List.length_pos_iff.1 hpos) enough hsource hclosed
  exact ⟨left, hcall, hafter⟩

/-- The message of a chunk with another code is the error of the call. -/
theorem call_of_refused [Ssz.Lawful Req] [Ssz.Lawful Resp] (hm : m.IsFixed n)
    (hresp : Ssz.size Resp < 2 ^ 63) (request : Req) {responses : List Resp} {code : ResultCode}
    {message : Bytes} (hlt : responses.length < n) (hcode : code ≠ .success)
    (hmessage : message.length ≤ 256) :
    ∃ served refused, m.serve responses .unlimited = (.ok (), served) ∧
      writeChunk m.compression code messageBounds message served = (.ok (), refused) ∧
      ∀ (source : Source) (rest : Bytes), source.remaining = refused.sent ++ rest →
        ∃ left, m.call request ⟨source, .unlimited⟩ =
            (.error (.failed (.errorResponse code (Utf8.decodeLossy message))), left) ∧
          source.After refused.sent left.source := by
  have frame : IsFrame m.compression messageBounds (encodeFrame m.compression message) message :=
    isFrame_encodeFrame (by simp [SizeBounds.contains, messageBounds, hmessage]) (by omega)
  have fits : messageBounds.contains message.length = true := frame.1
  have fewer : responses.length < m.maxChunks := by rwa [hm.eq.2.2]
  refine ⟨_, _, serve_of_unlimited hm rfl rfl responses, writeChunk_of_unlimited fits rfl rfl,
    fun source rest hsource => ?_⟩
  simp only [Sink.unlimited, List.nil_append, List.append_assoc] at hsource ⊢
  obtain ⟨left, hafter, hcall⟩ := @call_of_error _ _ _ _ m request ⟨source, .unlimited⟩ _ _ _ _ _
    (sends_of_isFixed hm request) (forall₂_served hm hresp responses) fewer
    (takes_readChunk_refusal hcode frame) (by simp) hsource
  exact ⟨left, hcall, hafter⟩

/-- Both sides of a call understand each other. The request that a call writes is read back; the
responses that are written before the stream is closed are returned; and after some responses, fewer
than the method has, the message of a chunk with another code is. All of them are taken to the last
byte, and no byte more. (No byte string in memory has `2 ^ 63` bytes.) -/
theorem exchange [Ssz.Lawful Req] [Ssz.Lawful Resp] (hm : m.IsFixed n)
    (hreq : Ssz.size Req < 2 ^ 63) (hresp : Ssz.size Resp < 2 ^ 63) (request : Req) :
    (∃ sent, ∀ source, (m.call request ⟨source, .unlimited⟩).2.sink.sent = sent ∧
      ∀ received : Source, received.remaining = sent →
        ∃ left, readRequest m.compression m.requestBounds received =
            (.ok (Ssz.encode request), left) ∧
          received.After sent left) ∧
    (∀ responses : List Resp, 1 ≤ responses.length → responses.length ≤ n →
      ∃ served, m.serve responses .unlimited = (.ok (), served) ∧
        ∀ source : Source, source.remaining = served.sent → source.ending = .closed →
          ∃ left, m.call request ⟨source, .unlimited⟩ = (.ok responses, left) ∧
            source.After served.sent left.source) ∧
    (∀ (responses : List Resp) (code : ResultCode) (message : Bytes), responses.length < n →
      code ≠ .success → message.length ≤ 256 →
      ∃ served refused, m.serve responses .unlimited = (.ok (), served) ∧
        writeChunk m.compression code messageBounds message served = (.ok (), refused) ∧
        ∀ (source : Source) (rest : Bytes), source.remaining = refused.sent ++ rest →
          ∃ left, m.call request ⟨source, .unlimited⟩ =
              (.error (.failed (.errorResponse code (Utf8.decodeLossy message))), left) ∧
            source.After refused.sent left.source) := by
  refine ⟨⟨encodeFrame m.compression (Ssz.encode request), fun source =>
    ⟨sent_call hm request source, fun received hreceived => ?_⟩⟩, ?_, ?_⟩
  · exact readRequest_of_call hm hreq request hreceived
  · intro responses hpos hle
    exact call_of_served hm hresp request hpos hle
  · intro responses code message hlt hcode hmessage
    exact call_of_refused hm hresp request hlt hcode hmessage

/-- A method for at most four roots, in snappy frames. -/
def roots : Method Root Root :=
  (Method.fixed Root Root "/roots/1" 4).compressed

/-- A root of equal bytes. -/
def rootOf (b : UInt8) : Root :=
  ⟨⟨List.replicate 32 b, List.length_replicate⟩⟩

/-- Two roots are written as an answer, and returned. -/
theorem exchange_roots : roots.IsFixed 4 ∧ Ssz.size Root < 2 ^ 63 ∧
    ∃ served, roots.serve [rootOf 1, rootOf 2] .unlimited = (.ok (), served) ∧
      ∀ source : Source, source.remaining = served.sent → source.ending = .closed →
        ∃ left, roots.call (rootOf 0) ⟨source, .unlimited⟩ = (.ok [rootOf 1, rootOf 2], left) ∧
          source.After served.sent left.source :=
  ⟨⟨_, .inr rfl⟩, by decide, (exchange ⟨_, .inr rfl⟩ (by decide) (by decide) (rootOf 0)).2.1 _
    (by decide) (by decide)⟩

end Method

end Rpc

end PeerCensus
