import PeerCensus.Proofs.Rpc.RoundTrip
import PeerCensus.Proofs.Stream.Writing

/-!
# What is on the wire

A payload is encoded as a whole before anything of it is written. So whatever becomes of the stream,
the bytes that have been sent are the beginning of one encoding, and a payload that is out of bounds
sends nothing. The writer reports success only for all of the encoding, and for a request only when
the writing side has been closed; then the other side reads the payload back. It is never answered only
if the sink never answers.

Results:
* `writeRequest_eq`, `writeChunk_eq`: both writers check the length and then send one encoding.
* `honest_sendWithin`: what a writer says of the wire is true.
* `writing_honest`: so it is of requests and of chunks, which are read back.
-/

namespace PeerCensus.Rpc

variable {compression : Compression} {bounds : SizeBounds} {payload bytes : Bytes} {closes : Bool}
  {s s' : Sink} {result : Except (Halt RpcError) Unit}

/-- Sends an encoding of a payload whose length is within the bounds. -/
def sendWithin (bounds : SizeBounds) (payload bytes : Bytes) (closes : Bool) (s : Sink) :
    Except (Halt RpcError) Unit × Sink :=
  if bounds.contains payload.length then
    ((s.ready.send closes bytes).1.mapError (.map .ofFault), (s.ready.send closes bytes).2)
  else (.error (.failed (outOfBounds payload.length bounds)), s)

theorem writeRequest_eq (compression : Compression) (bounds : SizeBounds) (payload : Bytes)
    (s : Sink) : writeRequest compression bounds payload s =
      sendWithin bounds payload (encodeFrame compression payload) true s := by
  rw [writeRequest, sendWithin, Sink.send]
  split
  · rcases s.ready.writeAll (encodeFrame compression payload) with ⟨_ | ⟨⟩, s₁⟩
    · rfl
    · dsimp only
      rcases s₁.flush with ⟨_ | ⟨⟩, s₂⟩
      · rfl
      · dsimp only
        rw [if_pos rfl]
        rcases s₂.close with ⟨_ | ⟨⟩, s₃⟩ <;> rfl
  · rfl

theorem writeChunk_eq (compression : Compression) (code : ResultCode) (bounds : SizeBounds)
    (payload : Bytes) (s : Sink) : writeChunk compression code bounds payload s =
      sendWithin bounds payload (encodeChunk compression code payload) false s := by
  rw [writeChunk, sendWithin, Sink.send]
  split
  · rcases s.ready.writeAll (encodeChunk compression code payload) with ⟨_ | ⟨⟩, s₁⟩
    · rfl
    · dsimp only
      rcases s₁.flush with ⟨_ | ⟨⟩, s₂⟩ <;> rfl
  · rfl

/-- Whether what a writer says of the wire is true: it has written `bytes` for the payload to the
sink `s`, which is `s'` now, and was to close it if `closes`. -/
structure Honest (bounds : SizeBounds) (payload bytes : Bytes) (closes : Bool) (s : Sink)
    (result : Except (Halt RpcError) Unit) (s' : Sink) : Prop where
  /-- Nothing has been sent but a beginning of the bytes. -/
  front : ∃ front, front <+: bytes ∧ s'.sent = s.sent ++ front
  /-- A payload that is out of bounds is refused with its length, and the sink stays as it was. -/
  refused : bounds.contains payload.length = false →
    result = .error (.failed (.violation (.lengthOutOfBounds payload.length bounds))) ∧ s' = s
  /-- The writer succeeds exactly if the payload is within the bounds, the sink takes all of the bytes,
  and it can be closed if it is to be closed. -/
  succeeds_iff : result = .ok () ↔ bounds.contains payload.length = true ∧ s.Takes bytes ∧
    (closes = true → s.closingHalt = none)
  /-- When it succeeds all of the bytes have been sent, and the sink has been closed if it was to be. -/
  complete : result = .ok () → s'.sent = s.sent ++ bytes ∧ s'.closed = (closes || s.closed)
  /-- When it does not the sink has not been closed. -/
  unclosed : result ≠ .ok () → s'.closed = s.closed
  /-- A payload within the bounds fails by a fault of the sink, and hangs if the sink does. -/
  faulty : ∀ halt, bounds.contains payload.length = true → result = .error halt →
    ∃ cause, halt = cause.map .ofFault ∧
      ((∃ limit, s.limit = some (limit, cause)) ∨
        s.Takes bytes ∧ closes = true ∧ s.closingHalt = some cause)
  /-- For a payload within the bounds the sink is waited for once, and for no other. -/
  waits : s'.waited = s.waited + if bounds.contains payload.length then s.delay else 0

namespace Honest

theorem of_refused (hbounds : bounds.contains payload.length = false) :
    Honest bounds payload bytes closes s
      (.error (.failed (outOfBounds payload.length bounds))) s where
  front := ⟨[], List.nil_prefix, (List.append_nil _).symm⟩
  refused _ := ⟨rfl, rfl⟩
  succeeds_iff := ⟨nofun, fun h => nomatch hbounds.symm.trans h.1⟩
  complete := nofun
  unclosed _ := rfl
  faulty _ h := nomatch hbounds.symm.trans h
  waits := by
    rw [hbounds]
    rfl

/-- Whatever stops the writer leaves a beginning of the bytes on the wire. -/
theorem of_stopped {front : Bytes} {cause : Halt Fault}
    (hbounds : bounds.contains payload.length = true) (hfront : front <+: bytes)
    (hcause : (∃ limit, s.limit = some (limit, cause)) ∨
      s.Takes bytes ∧ closes = true ∧ s.closingHalt = some cause)
    (hfails : s.Takes bytes → ¬ (closes = true → s.closingHalt = none)) :
    Honest bounds payload bytes closes s (.error (cause.map .ofFault))
      { s.ready with sent := s.sent ++ front } where
  front := ⟨front, hfront, rfl⟩
  refused h := nomatch hbounds.symm.trans h
  succeeds_iff := ⟨nofun, fun h => absurd h.2.2 (hfails h.2.1)⟩
  complete := nofun
  unclosed _ := rfl
  faulty halt _ he := by
    cases he
    exact ⟨cause, rfl, hcause⟩
  waits := by
    rw [hbounds]
    rfl

theorem of_done (hbounds : bounds.contains payload.length = true) (htakes : s.Takes bytes)
    (hclosing : closes = true → s.closingHalt = none) :
    Honest bounds payload bytes closes s (.ok ())
      { s.ready with sent := s.sent ++ bytes, closed := closes || s.closed } where
  front := ⟨bytes, List.prefix_rfl, rfl⟩
  refused h := nomatch hbounds.symm.trans h
  succeeds_iff := ⟨fun _ => ⟨hbounds, htakes, hclosing⟩, fun _ => rfl⟩
  complete _ := ⟨rfl, rfl⟩
  unclosed h := absurd rfl h
  faulty := nofun
  waits := by
    rw [hbounds]
    rfl

/-- What a sink comes to once it accepts bytes is told truly. -/
theorem of_written {outcome : Except (Halt Fault) Unit}
    (hbounds : bounds.contains payload.length = true)
    (h : s.ready.Written closes bytes outcome s') :
    Honest bounds payload bytes closes s (outcome.mapError (.map .ofFault)) s' := by
  cases h with
  | cut hlimit hshort =>
    refine of_stopped hbounds (List.take_prefix ..) (.inl ⟨_, hlimit⟩) fun htakes => ?_
    exact absurd (htakes _ _ hlimit).1 (Nat.not_le.2 hshort)
  | unflushed hlimit hflush hexact =>
    refine of_stopped hbounds List.prefix_rfl (.inl ⟨_, hlimit⟩) fun htakes => ?_
    exact absurd ((htakes _ _ hlimit).2 hflush) (Nat.not_lt.2 (Nat.le_of_eq hexact))
  | unclosed htakes hcloses hclosing =>
    refine of_stopped hbounds List.prefix_rfl (.inr ⟨htakes, hcloses, hclosing⟩) fun _ hnone => ?_
    cases hclosing.symm.trans (hnone hcloses)
  | done htakes hclosing => exact of_done hbounds htakes hclosing

end Honest

theorem honest_sendWithin (bounds : SizeBounds) (payload bytes : Bytes) (closes : Bool) (s : Sink) :
    Honest bounds payload bytes closes s (sendWithin bounds payload bytes closes s).1
      (sendWithin bounds payload bytes closes s).2 := by
  rw [sendWithin]
  split
  · rename_i hbounds
    exact .of_written hbounds (s.ready.written_send closes bytes)
  · rename_i hbounds
    exact .of_refused (Bool.eq_false_iff.2 hbounds)

theorem honest_writeRequest (compression : Compression) (bounds : SizeBounds) (payload : Bytes)
    (s : Sink) :
    Honest bounds payload (encodeFrame compression payload) true s
      (writeRequest compression bounds payload s).1
      (writeRequest compression bounds payload s).2 := by
  rw [writeRequest_eq]
  exact honest_sendWithin ..

/-- What is said of the wire when a request or a chunk has been written to a sink is true, whatever
the sink takes and however it fails, or if it never answers; it may also take the bytes in pieces of any sizes. Only a
beginning of the one encoding is on the wire, nothing for a payload that is out of bounds, and all of
it for one that has been written. A request that has been written is read back by the other side
under the same bounds, however it arrives. (No payload in memory has `2 ^ 63` bytes.) -/
theorem writing_honest (compression : Compression) (bounds : SizeBounds) (payload : Bytes)
    (s : Sink) :
    Honest bounds payload (encodeFrame compression payload) true s
        (writeRequest compression bounds payload s).1
        (writeRequest compression bounds payload s).2 ∧
      (∀ code, Honest bounds payload (code.toByte :: encodeFrame compression payload) false s
        (writeChunk compression code bounds payload s).1
        (writeChunk compression code bounds payload s).2) ∧
      (payload.length < 2 ^ 63 → (writeRequest compression bounds payload s).1 = .ok () →
        ∀ received : Source,
          s.sent ++ received.remaining = (writeRequest compression bounds payload s).2.sent →
          ∃ left, readRequest compression bounds received = (.ok payload, left) ∧
            left.remaining = []) ∧
      ∀ (sizes : Nat → Nat) (bytes : Bytes), s.offerAll sizes bytes = s.writeAll bytes := by
  have request := honest_writeRequest compression bounds payload s
  refine ⟨request, fun code => ?_, fun hlength hok received hreceived => ?_, ?_⟩
  · rw [writeChunk_eq]
    exact honest_sendWithin ..
  · have hbounds := (request.succeeds_iff.1 hok).1
    rw [(request.complete hok).1] at hreceived
    have arrives : received.remaining = encodeFrame compression payload ++ [] := by
      rw [List.append_nil, List.append_cancel_left hreceived]
    obtain ⟨left, hread, -, hleft⟩ :=
      readRequest_encodeFrame (isFrame_encodeFrame hbounds hlength) arrives
    exact ⟨left, hread, hleft⟩
  · exact fun sizes bytes => s.offerAll_eq sizes bytes

/-- A sink that takes four bytes, after which the connection is reset. -/
def breaking : Sink := { Sink.unlimited with limit := some (4, .failed ⟨.reset, "reset"⟩) }

/-- A request with three bytes is four bytes long, which are all taken, and it is read back from two
pieces. A request with four bytes is on the wire but for its last byte, and reported as closed. -/
theorem writing_honest_breaking :
    [7, 8, 9].length < 2 ^ 63 ∧ (writeRequest .plain ⟨3, 4⟩ [7, 8, 9] breaking).1 = .ok () ∧
      (∃ left, readRequest .plain ⟨3, 4⟩ (.new [[3, 7], [8, 9]] .closed 0) = (.ok [7, 8, 9], left) ∧
        left.remaining = []) ∧
      ∃ front, front <+: encodeFrame .plain [7, 8, 9, 10] ∧ front.length = 4 ∧
        writeRequest .plain ⟨3, 4⟩ [7, 8, 9, 10] breaking =
          (.error (.failed .closed), { breaking with sent := front }) := by
  have whole : writeRequest .plain ⟨3, 4⟩ [7, 8, 9] breaking =
      (.ok (), { breaking with sent := [3, 7, 8, 9], closed := true }) := by decide +kernel
  have broken : writeRequest .plain ⟨3, 4⟩ [7, 8, 9, 10] breaking =
      (.error (.failed .closed), { breaking with sent := [4, 7, 8, 9] }) := by decide +kernel
  have hok : (writeRequest .plain ⟨3, 4⟩ [7, 8, 9] breaking).1 = .ok () := by rw [whole]
  have back := (writing_honest .plain ⟨3, 4⟩ [7, 8, 9] breaking).2.2.1 (by decide) hok
    (.new [[3, 7], [8, 9]] .closed 0) (by rw [whole]; rfl)
  obtain ⟨front, hfront, hsent⟩ := (writing_honest .plain ⟨3, 4⟩ [7, 8, 9, 10] breaking).1.front
  rw [broken] at hsent
  obtain rfl : [4, 7, 8, 9] = front := hsent
  exact ⟨by decide, hok, back, _, hfront, rfl, broken⟩

end PeerCensus.Rpc
