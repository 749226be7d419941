import PeerCensus.Proofs.Rpc.Call
import PeerCensus.Proofs.Rpc.Consumption
import PeerCensus.Proofs.Rpc.Writing
import PeerCensus.Proofs.Stream.Waiting
import PeerCensus.Rpc.Handshake

/-!
# Calls under a deadline

A call waits until its request goes out, and then for one piece of the response after another. One
deadline counts for all of this: what the request has taken of it is lost to the response, and so is
what each piece has taken to the pieces after it. A call that comes to something by then comes to
what it would come to anyway; if not, it has timed out at the deadline. It cannot do so any later,
whatever the other side sends and wherever it falls silent.

Results:
* `Method.punctual_readResponses`: what reads a response is punctual.
* `Method.meets_call`: so is a call, writing included.
* `Method.callWithin_of_overdue`, `Method.callWithin_of_not_overdue`: what a call under a deadline
  comes to.
* `handshake_cases`, `elapsed_handshake_le`: what the exchange of status comes to, and how soon.
-/

namespace PeerCensus.Rpc

variable {compression : Compression} {bounds : SizeBounds}

/-! ## What is read -/

theorem punctual_exactly (n : Nat) : (exactly n).Punctual :=
  (Reader.punctual_exactly n).mapError _

theorem length_of_exactly {n : Nat} {s : Source} {bytes : Bytes}
    (h : (exactly n s).1 = .ok bytes) : bytes.length = n := by
  rcases (decides_exactly n).run s with
    ⟨taken, result, s', -, hspec, -, hread⟩ | ⟨s', -, -, hread⟩ <;> rw [hread] at h
  · cases result with
    | error e => cases h
    | ok found =>
      obtain ⟨hlength, rfl⟩ := hspec
      cases h
      exact hlength
  · cases h

theorem Rations.punctual {room : Nat} {r : Reader RpcError Bytes} (h : Rations room r) :
    r.Punctual := by
  induction h with
  | done result => exact Reader.punctual_ofExcept result
  | block _ _ ih =>
    exact (punctual_exactly _).bind fun _ bytes hread => ih bytes (length_of_exactly hread)

theorem punctual_readFrame (compression : Compression) (bounds : SizeBounds) :
    (readFrame compression bounds).Punctual := by
  rw [readFrame_eq]
  exact (Varint.punctual_read.mapError _).bind fun _ declared _ => (rations_readBody ..).punctual

theorem punctual_readAfterByte (compression : Compression) (bounds : SizeBounds)
    (found : Option UInt8) : (readAfterByte compression bounds found).Punctual := by
  cases found with
  | none => exact Reader.punctual_fail _
  | some b =>
    rw [readAfterByte]
    cases ResultCode.ofByte? b with
    | none => exact Reader.punctual_fail _
    | some code =>
      dsimp only
      rw [readAfterCode_eq]
      exact (punctual_readFrame _ _).bind fun _ _ _ => Reader.punctual_ofExcept _

theorem punctual_readChunk (compression : Compression) (bounds : SizeBounds) :
    (readChunk compression bounds).Punctual := by
  rw [readChunk_eq]
  exact (Reader.punctual_byte?.mapError _).bind fun _ found _ => punctual_readAfterByte _ _ found

namespace Method

section Responses

variable {Resp : Type} [Ssz Resp]

/-- What the reader of a response does after a chunk that was read, or was not. -/
def readOn (compression : Compression) (bounds : SizeBounds) (n : Nat) (started : Bool) :
    Except RpcError Bytes → Reader RpcError (List Resp)
  | .error e => if started = true ∧ e = .closed then pure [] else Reader.fail e
  | .ok payload =>
    match Ssz.decode Resp payload with
    | .error e => Reader.fail (.codec e)
    | .ok response => do
      let responses ← readResponses compression bounds n true
      return response :: responses

theorem readResponses_succ_eq (compression : Compression) (bounds : SizeBounds) (n : Nat)
    (started : Bool) :
    (readResponses compression bounds (n + 1) started : Reader RpcError (List Resp)) =
      (readChunk compression bounds).resume (readOn compression bounds n started) := by
  funext s
  rw [readResponses_succ, Reader.resume]
  rcases readChunk compression bounds s with ⟨(e | _) | payload, s'⟩
  · by_cases hend : started = true ∧ e = .closed
    · simp only [readOn, Halt.failed.injEq, if_pos hend]
      rfl
    · simp only [readOn, Halt.failed.injEq, if_neg hend]
      rfl
  · simp
  · simp only [readOn]
    cases Ssz.decode Resp payload with
    | error e => rfl
    | ok response =>
      dsimp only
      rw [Reader.bind_apply, prepend]
      rcases readResponses compression bounds n true s' with ⟨halt | responses, s''⟩ <;> rfl

/-- What reads a response is punctual: the time that a chunk takes is lost to the chunks after it. -/
theorem punctual_readResponses (compression : Compression) (bounds : SizeBounds) (n : Nat)
    (started : Bool) :
    (readResponses compression bounds n started : Reader RpcError (List Resp)).Punctual := by
  induction n generalizing started with
  | zero => exact Reader.punctual_pure []
  | succ n ih =>
    rw [readResponses_succ_eq]
    refine (punctual_readChunk compression bounds).resume fun _ result _ => ?_
    cases result with
    | error e =>
      rw [readOn]
      split
      · exact Reader.punctual_pure []
      · exact Reader.punctual_fail e
    | ok payload =>
      rw [readOn]
      cases Ssz.decode Resp payload with
      | error e => exact Reader.punctual_fail _
      | ok response => exact (ih true).bind fun _ _ _ => Reader.punctual_pure _

end Responses

/-! ## Calls -/

variable {Req Resp : Type} [Ssz Req] [Ssz Resp] {m : Method Req Resp} {request : Req}
  {deadline : Nat} {stream : Duplex}

/-- How many milliseconds a call waits when it is not given up. -/
def took (m : Method Req Resp) (request : Req) (stream : Duplex) : Nat :=
  (m.call request stream).2.waited - stream.waited

/-- Whether a call that is not given up has not come to anything after `deadline` milliseconds. -/
def Overdue (m : Method Req Resp) (request : Req) (deadline : Nat) (stream : Duplex) : Prop :=
  (m.call request stream).1 = .error .hung ∨ deadline < m.took request stream

/-- A sink that accepts bytes too late keeps the writer waiting until it gives up. -/
theorem writeRequest_of_late {s : Sink} {payload : Bytes}
    (hbounds : bounds.contains payload.length = true) (hlate : deadline < s.delay) :
    (writeRequest compression bounds payload (s.upTo deadline)).1 = .error .hung := by
  have cut : s.upTo deadline =
      { s with limit := some (s.sent.length, .hung), failsFlushing := true } :=
    if_neg (Nat.not_le.2 hlate)
  have honest := honest_writeRequest compression bounds payload (s.upTo deadline)
  have takesNone : ¬ (s.upTo deadline).Takes (encodeFrame compression payload) := by
    intro htakes
    rw [cut] at htakes
    have := (htakes _ _ rfl).2 rfl
    dsimp only at this
    omega
  cases hresult : (writeRequest compression bounds payload (s.upTo deadline)).1 with
  | ok done => exact absurd (honest.succeeds_iff.1 hresult).2.1 takesNone
  | error halt =>
    obtain ⟨cause, rfl, ⟨limit, hlimit⟩ | ⟨htakes, -⟩⟩ := honest.faulty halt hbounds hresult
    · rw [cut] at hlimit
      cases hlimit
      rfl
    · exact absurd htakes takesNone

omit [Ssz Resp] in
/-- Under a deadline a request goes out exactly if it does anyway, to a sink that accepts it in time. -/
theorem sends_upTo_iff {sink : Sink} : m.Sends request (sink.upTo deadline) ↔
    m.Sends request sink ∧ sink.delay ≤ deadline := by
  by_cases hsink : sink.delay ≤ deadline
  · rw [Sink.upTo, if_pos hsink, and_iff_left hsink]
  · refine iff_of_false (fun hsends => ?_) fun h => hsink h.2
    have hbounds := ((honest_writeRequest m.compression m.requestBounds (Ssz.encode request)
      (sink.upTo deadline)).succeeds_iff.1 hsends).1
    rw [Sends, writeRequest_of_late hbounds (Nat.lt_of_not_le hsink)] at hsends
    cases hsends

/-- A call waits for its sink first, if its request is within the bounds. -/
theorem delay_le_took (hbounds : m.requestBounds.contains (Ssz.encode request).length = true) :
    stream.sink.delay ≤ m.took request stream := by
  have waits := (honest_writeRequest m.compression m.requestBounds (Ssz.encode request)
    stream.sink).waits
  rw [if_pos hbounds] at waits
  rw [took]
  rcases hwrite : writeRequest m.compression m.requestBounds (Ssz.encode request) stream.sink with
    ⟨halt | ⟨⟩, sink⟩ <;> rw [hwrite] at waits <;> dsimp only at waits
  · rw [call_eq_of_write_error hwrite]
    simp only [Duplex.waited]
    omega
  · have punctual : (readResponses m.compression m.responseBounds m.maxChunks false :
        Reader RpcError (List Resp)).Punctual := punctual_readResponses ..
    have forward := punctual.forward stream.source
    rw [call_eq_of_write hwrite]
    simp only [Duplex.waited]
    omega

/-- What becomes of a call under a deadline: it comes to nothing if it would take longer, and otherwise
to what it would come to anyway, as soon. -/
structure Meets (m : Method Req Resp) (request : Req) (deadline : Nat) (stream : Duplex) : Prop where
  overdue : m.Overdue request deadline stream →
    (m.call request (stream.upTo deadline)).1 = .error .hung
  inTime : ¬ m.Overdue request deadline stream →
    (m.call request (stream.upTo deadline)).1 = (m.call request stream).1 ∧
      (m.call request (stream.upTo deadline)).2.waited = (m.call request stream).2.waited

/-- A request that is out of bounds ends the call at once, under any deadline. -/
theorem meets_of_outOfBounds
    (hbounds : ¬ m.requestBounds.contains (Ssz.encode request).length = true) :
    m.Meets request deadline stream := by
  have refused (stream : Duplex) : m.call request stream =
      (.error (.failed (outOfBounds (Ssz.encode request).length m.requestBounds)), stream) := by
    rw [call, writeRequest, if_neg hbounds]
  have same : (stream.upTo deadline).waited = stream.waited := by
    rw [Duplex.waited, Duplex.upTo, Sink.waited_upTo, Source.waited_upTo, Duplex.waited]
  constructor
  · rintro (h | h)
    · rw [refused] at h
      cases h
    · rw [took, refused, Nat.sub_self] at h
      exact absurd h (Nat.not_lt_zero _)
  · intro _
    rw [refused, refused]
    exact ⟨rfl, same⟩

/-- A sink that accepts bytes too late leaves no time for the response. -/
theorem meets_of_late (hbounds : m.requestBounds.contains (Ssz.encode request).length = true)
    (hlate : deadline < stream.sink.delay) : m.Meets request deadline stream where
  overdue _ := by
    have hung : (writeRequest m.compression m.requestBounds (Ssz.encode request)
        (stream.sink.upTo deadline)).1 = .error .hung := writeRequest_of_late hbounds hlate
    rw [call_eq_of_write_error (Prod.ext hung rfl)]
  inTime h := by
    have soon : m.took request stream ≤ deadline := Nat.le_of_not_lt (not_or.1 h).2
    have waits : stream.sink.delay ≤ m.took request stream := delay_le_took hbounds
    omega

section Asked

variable {source : Source} {writing sink : Sink}

/-- A sink that accepts bytes in time is not cut off. -/
theorem upTo_of_soon (hsoon : writing.delay ≤ deadline) :
    (Duplex.mk source writing).upTo deadline =
      ⟨source.upTo (deadline - writing.delay), writing⟩ := by
  rw [Duplex.upTo, Sink.upTo, if_pos hsoon]

/-- A request that is not sent in spite of this ends the call when it would anyway. -/
theorem meets_of_unsent {halt : Halt RpcError} (hsoon : writing.delay ≤ deadline)
    (hwrite : writeRequest m.compression m.requestBounds (Ssz.encode request) writing =
      (.error halt, sink))
    (hwaits : sink.waited = writing.waited + writing.delay) :
    m.Meets request deadline ⟨source, writing⟩ := by
  have run (source : Source) : m.call request ⟨source, writing⟩ = (.error halt, ⟨source, sink⟩) :=
    call_eq_of_write_error hwrite
  constructor
  · rintro (h | h)
    · rw [run] at h
      rw [upTo_of_soon hsoon, run]
      exact h
    · rw [took, run] at h
      simp only [Duplex.waited] at h
      omega
  · intro _
    rw [upTo_of_soon hsoon, run, run]
    simp only [Duplex.waited, Source.waited_upTo, and_self]

/-- What a request that is sent leaves of the time is for the response. -/
theorem meets_of_sent (hsoon : writing.delay ≤ deadline)
    (hwrite : writeRequest m.compression m.requestBounds (Ssz.encode request) writing =
      (.ok (), sink))
    (hwaits : sink.waited = writing.waited + writing.delay) :
    m.Meets request deadline ⟨source, writing⟩ := by
  let read : Reader RpcError (List Resp) :=
    readResponses m.compression m.responseBounds m.maxChunks false
  have run (source : Source) : m.call request ⟨source, writing⟩ =
      ((read source).1, ⟨(read source).2, sink⟩) := call_eq_of_write hwrite
  have punctual : read.Punctual := punctual_readResponses ..
  have forward := punctual.forward source
  have meets := punctual.meets (source.waited + (deadline - writing.delay)) source
    (Nat.le_add_right ..)
  rw [Nat.add_sub_cancel_left] at meets
  have overdue_iff : m.Overdue request deadline ⟨source, writing⟩ ↔
      (read source).1 = .error .hung ∨
        source.waited + (deadline - writing.delay) < (read source).2.waited := by
    rw [Overdue, took, run]
    simp only [Duplex.waited]
    exact or_congr_right (by omega)
  constructor
  · intro h
    rw [upTo_of_soon hsoon, run]
    exact meets.late (overdue_iff.1 h)
  · intro h
    obtain ⟨hanswered, hle⟩ := not_or.1 (mt overdue_iff.2 h)
    rw [upTo_of_soon hsoon, run, run, meets.inTime hanswered (Nat.le_of_not_lt hle)]
    simp only [Duplex.waited, Source.waited_upTo, and_self]

end Asked

/-- A deadline counts for all of a call. -/
theorem meets_call (m : Method Req Resp) (request : Req) (deadline : Nat) (stream : Duplex) :
    m.Meets request deadline stream := by
  by_cases hbounds : m.requestBounds.contains (Ssz.encode request).length = true
  · rcases Nat.lt_or_ge deadline stream.sink.delay with hlate | hsink
    · exact meets_of_late hbounds hlate
    · obtain ⟨source, writing⟩ := stream
      have waits := (honest_writeRequest m.compression m.requestBounds (Ssz.encode request)
        writing).waits
      rw [if_pos hbounds] at waits
      rcases hwrite : writeRequest m.compression m.requestBounds (Ssz.encode request) writing with
        ⟨halt | ⟨⟩, sink⟩ <;> rw [hwrite] at waits
      · exact meets_of_unsent hsink hwrite waits
      · exact meets_of_sent hsink hwrite waits
  · exact meets_of_outOfBounds hbounds

/-- A call that has not come to anything by the deadline has timed out then. -/
theorem callWithin_of_overdue (h : m.Overdue request deadline stream) :
    (m.callWithin request deadline stream).result = .error .timeout ∧
      (m.callWithin request deadline stream).elapsed = deadline := by
  have given := (m.meets_call request deadline stream).overdue h
  rw [callWithin]
  rcases hcall : m.call request (stream.upTo deadline) with ⟨result, left⟩
  rw [hcall] at given
  cases given
  exact ⟨rfl, rfl⟩

/-- Any other call comes to what it would come to without a deadline, and as soon. -/
theorem callWithin_of_not_overdue (h : ¬ m.Overdue request deadline stream) :
    (m.callWithin request deadline stream).result.mapError .failed = (m.call request stream).1 ∧
      (m.callWithin request deadline stream).elapsed = m.took request stream := by
  obtain ⟨hresult, hwaited⟩ := (m.meets_call request deadline stream).inTime h
  have answered := (not_or.1 h).1
  rw [← hresult] at answered ⊢
  rw [took, ← hwaited, callWithin]
  rcases hcall : m.call request (stream.upTo deadline) with ⟨(e | _) | responses, left⟩
  · exact ⟨rfl, rfl⟩
  · rw [hcall] at answered
    exact absurd rfl answered
  · exact ⟨rfl, rfl⟩

/-- A request that has to wait, and a response in two pieces, each of which comes soon enough: together
they take eleven milliseconds. -/
example :
    let m := Method.fixed (FixedBytes 4) (FixedBytes 4) "digest" 1
    let stream : Duplex := ⟨⟨[⟨4, [0, 4, 1, 2]⟩, ⟨4, [3, 4]⟩], .closed, 0, 0, 0⟩,
      { Sink.unlimited with delay := 3 }⟩
    (m.callWithin default 10 stream).result = .error .timeout ∧
      (m.callWithin default 11 stream).elapsed = 11 := by
  decide +kernel

theorem elapsed_callWithin_le (m : Method Req Resp) (request : Req) (deadline : Nat)
    (stream : Duplex) : (m.callWithin request deadline stream).elapsed ≤ deadline := by
  by_cases h : m.Overdue request deadline stream
  · exact Nat.le_of_eq (callWithin_of_overdue h).2
  · rw [(callWithin_of_not_overdue h).2]
    exact Nat.le_of_not_lt (not_or.1 h).2

end Method

/-! ## The exchange of status -/

variable {digest : ForkDigest} {deadline : Nat} {stream : Duplex} {status : Status} {e : RpcError}

/-- The peer tells the status `status` in time: it can be asked, and by the deadline, of which the
question takes its part, the bytes of a complete chunk with that status have come. -/
structure Tells (digest : ForkDigest) (deadline : Nat) (stream : Duplex) (status : Status) : Prop where
  sends : statusMethod.Sends (.asking digest) stream.sink
  asks : stream.sink.delay ≤ deadline
  told : ∃ chunk rest, stream.source.arrived (deadline - stream.sink.delay) = chunk ++ rest ∧
    IsResponse statusMethod.compression statusMethod.responseBounds chunk status

/-- The exchange fails with `e`: it comes to that in time, or it comes to nothing in time and `e` says
so. -/
def Denies (digest : ForkDigest) (deadline : Nat) (stream : Duplex) (e : RpcError) : Prop :=
  statusMethod.Overdue (.asking digest) deadline stream ∧ e = .timeout ∨
    ¬ statusMethod.Overdue (.asking digest) deadline stream ∧
      (statusMethod.call (.asking digest) stream).1 = .error (.failed e)

/-- A status is what its chunk at the front of the stream says, and there is only one. -/
theorem call_status_eq_ok_iff {responses : List Status} :
    (statusMethod.call (.asking digest) stream).1 = .ok responses ↔
      statusMethod.Sends (.asking digest) stream.sink ∧
        ∃ status chunk rest, responses = [status] ∧ stream.source.remaining = chunk ++ rest ∧
          IsResponse statusMethod.compression statusMethod.responseBounds chunk status := by
  constructor
  · intro h
    obtain ⟨hsends, chunks, tail, hafter, hchunks, hend⟩ :=
      Method.exists_of_call_ok (Prod.ext h rfl : statusMethod.call (.asking digest) stream =
        (.ok responses, (statusMethod.call (.asking digest) stream).2))
    refine ⟨hsends, ?_⟩
    rcases hend with ⟨hlength, rfl⟩ | ⟨hlength, hne, -⟩
    · obtain ⟨status, rfl⟩ := List.length_eq_one_iff.1 hlength
      obtain ⟨chunk, _, hchunk, hnil, rfl⟩ := List.forall₂_cons_right_iff.1 hchunks
      obtain rfl := List.forall₂_nil_right_iff.1 hnil
      refine ⟨status, chunk, (statusMethod.call (.asking digest) stream).2.source.remaining, rfl, ?_,
        hchunk⟩
      simpa using hafter.remaining
    · exact absurd (List.length_eq_zero_iff.1 (Nat.lt_one_iff.1 hlength)) hne
  · rintro ⟨hsends, status, chunk, rest, rfl, hremaining, hchunk⟩
    obtain ⟨left, -, hcall⟩ := Method.call_of_enough hsends (.cons hchunk .nil) rfl
      (by simpa using hremaining)
    rw [hcall]

/-- A peer tells its status in time exactly if the call comes to that which is given up then. -/
theorem tells_iff : Tells digest deadline stream status ↔
    (statusMethod.call (.asking digest) (stream.upTo deadline)).1 = .ok [status] := by
  have front : (stream.upTo deadline).source.remaining =
      stream.source.arrived (deadline - stream.sink.delay) := Source.remaining_upTo ..
  rw [call_status_eq_ok_iff, front]
  constructor
  · rintro ⟨hsends, hasks, chunk, rest, harrived, hchunk⟩
    exact ⟨Method.sends_upTo_iff.2 ⟨hsends, hasks⟩, status, chunk, rest, rfl, harrived, hchunk⟩
  · rintro ⟨hsends, status', chunk, rest, hsame, harrived, hchunk⟩
    cases hsame
    obtain ⟨hsends, hasks⟩ := Method.sends_upTo_iff.1 hsends
    exact ⟨hsends, hasks, chunk, rest, harrived, hchunk⟩

theorem Tells.unique {status' : Status} (h : Tells digest deadline stream status)
    (h' : Tells digest deadline stream status') : status = status' :=
  List.singleton_injective (Except.ok.inj ((tells_iff.1 h).symm.trans (tells_iff.1 h')))

theorem Tells.not_overdue (h : Tells digest deadline stream status) :
    ¬ statusMethod.Overdue (.asking digest) deadline stream := by
  intro hover
  cases (tells_iff.1 h).symm.trans ((statusMethod.meets_call _ deadline stream).overdue hover)

/-- It tells the same to someone who does not give up. -/
theorem Tells.call_eq (h : Tells digest deadline stream status) :
    (statusMethod.call (.asking digest) stream).1 = .ok [status] := by
  rw [← ((statusMethod.meets_call _ deadline stream).inTime h.not_overdue).1]
  exact tells_iff.1 h

theorem Tells.not_denies (h : Tells digest deadline stream status) :
    ¬ Denies digest deadline stream e := by
  rintro (⟨hover, -⟩ | ⟨-, hcall⟩)
  · exact h.not_overdue hover
  · cases h.call_eq.symm.trans hcall

theorem Denies.unique {e' : RpcError} (h : Denies digest deadline stream e)
    (h' : Denies digest deadline stream e') : e = e' := by
  rcases h with ⟨hover, rfl⟩ | ⟨hover, hcall⟩
  · obtain ⟨-, rfl⟩ := h'.resolve_right fun ⟨hnot, _⟩ => hnot hover
    rfl
  · obtain ⟨-, hcall'⟩ := h'.resolve_left fun ⟨hover', _⟩ => hover hover'
    exact Halt.failed.inj (Except.error.inj (hcall.symm.trans hcall'))

theorem handshake_of_error
    (h : (statusMethod.callWithin (.asking digest) deadline stream).result = .error e) :
    (handshake digest deadline stream).result = .error e := by
  rw [handshake]
  dsimp only
  rw [h]

theorem handshake_of_ok
    (h : (statusMethod.callWithin (.asking digest) deadline stream).result = .ok [status]) :
    (handshake digest deadline stream).result = .ok status := by
  rw [handshake]
  dsimp only
  rw [h]
  rfl

/-- The exchange comes to a status that is told in time, or to an error. -/
theorem handshake_cases (digest : ForkDigest) (deadline : Nat) (stream : Duplex) :
    (∃ status, Tells digest deadline stream status ∧
        (handshake digest deadline stream).result = .ok status) ∨
      ∃ e, Denies digest deadline stream e ∧
        (handshake digest deadline stream).result = .error e := by
  by_cases hover : statusMethod.Overdue (.asking digest) deadline stream
  · exact .inr ⟨.timeout, .inl ⟨hover, rfl⟩,
      handshake_of_error (Method.callWithin_of_overdue hover).1⟩
  · have hresult := (Method.callWithin_of_not_overdue hover).1
    cases hwithin : (statusMethod.callWithin (.asking digest) deadline stream).result with
    | error e =>
      rw [hwithin] at hresult
      exact .inr ⟨e, .inr ⟨hover, hresult.symm⟩, handshake_of_error hwithin⟩
    | ok responses =>
      rw [hwithin] at hresult
      obtain ⟨-, status, -, -, rfl, -⟩ := call_status_eq_ok_iff.1 hresult.symm
      have given := ((statusMethod.meets_call _ deadline stream).inTime hover).1
      exact .inl ⟨status, tells_iff.2 (given.trans hresult.symm), handshake_of_ok hwithin⟩

theorem elapsed_handshake_le (digest : ForkDigest) (deadline : Nat) (stream : Duplex) :
    (handshake digest deadline stream).elapsed ≤ deadline :=
  statusMethod.elapsed_callWithin_le (.asking digest) deadline stream

end PeerCensus.Rpc
