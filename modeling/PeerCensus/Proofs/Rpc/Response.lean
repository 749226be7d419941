import Mathlib.Data.List.Forall2
import PeerCensus.Proofs.Rpc.Frame
import PeerCensus.Rpc.Method

/-!
# Responses chunk by chunk

A complete chunk of a success is its code and a frame. Chunks at the front of a source are taken
one by one, so what comes of a response is decided by the bytes after its last complete chunk: there
may be enough chunks, another chunk may be refused, or the source may end. The loop that reads a
response takes every end that is reported as a close for the end of the response, wherever it comes.

Results:
* `decides_readChunk`: bytes that are taken for a payload are a complete chunk.
* `starves_of_readChunk_closed`: a close is reported at the end of the stream only.
* `readResponses_append`: complete chunks at the front are taken, and reading goes on after them.
* `readResponses_of_starves`: what comes of a response when the source ends after these.
* `exists_of_readResponses_ok`: whatever is read is made of complete chunks.
-/

namespace PeerCensus.Rpc

variable {compression : Compression} {bounds : SizeBounds}

/-! ## Single chunks -/

/-- Whether `bytes` are a complete chunk of a success with the payload. -/
def IsChunk (compression : Compression) (bounds : SizeBounds) (bytes payload : Bytes) : Prop :=
  ∃ frame, bytes = ResultCode.success.toByte :: frame ∧ IsFrame compression bounds frame payload

/-- What follows the first byte of a chunk, if there is one. -/
def readAfterByte (compression : Compression) (bounds : SizeBounds) :
    Option UInt8 → Reader RpcError Bytes
  | none => Reader.fail .closed
  | some b =>
    match ResultCode.ofByte? b with
    | none => Reader.fail (.violation (.unknownResultCode b))
    | some code => readAfterCode compression bounds code

theorem readChunk_eq (compression : Compression) (bounds : SizeBounds) :
    readChunk compression bounds =
      Reader.mapError RpcError.ofFault Reader.byte? >>= readAfterByte compression bounds := rfl

theorem takes_code (b : UInt8) :
    (Reader.mapError RpcError.ofFault Reader.byte?).Takes [b] (.ok (some b)) :=
  (Reader.takes_byte? b).mapError _

/-- Each code has one byte. -/
theorem toByte_of_ofByte? {b : UInt8} {code : ResultCode} (h : ResultCode.ofByte? b = some code) :
    b = code.toByte := by
  simp only [ResultCode.ofByte?] at h
  split at h
  · cases h
    assumption
  · split at h
    · cases h
      assumption
    · split at h
      · cases h
        assumption
      · cases h

theorem readAfterByte_toByte (code : ResultCode) :
    readAfterByte compression bounds (some code.toByte) =
      readAfterCode compression bounds code := by
  rw [readAfterByte, ResultCode.ofByte?_toByte]

/-- The reader takes a complete chunk for its payload. -/
theorem takes_readChunk {bytes payload : Bytes} (h : IsChunk compression bounds bytes payload) :
    (readChunk compression bounds).Takes bytes (.ok payload) := by
  obtain ⟨frame, rfl, hframe⟩ := h
  rw [readChunk_eq]
  refine (takes_code _).bind_cons ?_
  rw [readAfterByte_toByte]
  exact takes_readFrame hframe

theorem readAfterCode_of_ne_success {code : ResultCode} (hcode : code ≠ .success) :
    readAfterCode compression bounds code = (readFrame compression messageBounds >>= fun message =>
      Reader.fail (.errorResponse code (Utf8.decodeLossy message))) := by
  cases code with
  | success => exact absurd rfl hcode
  | invalidRequest => rfl
  | serverError => rfl

/-- A chunk with another code is taken for an error with its message. -/
theorem takes_readChunk_refusal {code : ResultCode} {frame message : Bytes}
    (hcode : code ≠ .success) (h : IsFrame compression messageBounds frame message) :
    (readChunk compression bounds).Takes (code.toByte :: frame)
      (.error (.errorResponse code (Utf8.decodeLossy message))) := by
  have refused : (readAfterCode compression bounds code).Takes (frame ++ [])
      (.error (.errorResponse code (Utf8.decodeLossy message))) := by
    rw [readAfterCode_of_ne_success hcode]
    exact (takes_readFrame h).bind (Reader.takes_fail _)
  rw [List.append_nil] at refused
  rw [readChunk_eq]
  refine (takes_code _).bind_cons ?_
  rwa [readAfterByte_toByte]

theorem decides_readAfterByte (b : UInt8) :
    (readAfterByte compression bounds (some b)).Decides
      (Gives fun frame payload => IsChunk compression bounds (b :: frame) payload) atEnd := by
  rw [readAfterByte]
  cases hb : ResultCode.ofByte? b with
  | none => exact decides_fail (by simp)
  | some code =>
    obtain rfl := toByte_of_ofByte? hb
    by_cases hcode : code = .success
    · subst hcode
      refine (decides_readFrame compression bounds).mono ?_
      rintro frame (e | payload) hspec
      · exact hspec
      · exact ⟨frame, rfl, hspec⟩
    · dsimp only
      rw [readAfterCode_of_ne_success hcode]
      exact Gives.decides_bind (decides_readFrame compression messageBounds) fun _ _ _ =>
        decides_fail (by simp)

/-- Before a chunk the reader wants one. -/
theorem starves_nil (compression : Compression) (bounds : SizeBounds) :
    (readChunk compression bounds).Starves [] atEnd :=
  Reader.starves_byte? rfl

/-- Bytes that are taken for a payload are a complete chunk. -/
theorem decides_readChunk (compression : Compression) (bounds : SizeBounds) :
    (readChunk compression bounds).Decides (Gives (IsChunk compression bounds)) atEnd := by
  rw [readChunk_eq]
  rintro (_ | ⟨b, bytes⟩)
  · exact .inr (starves_nil compression bounds)
  · rcases decides_readAfterByte b bytes with ⟨frame, result, hp, htaken, hspec⟩ | hstarves
    · refine .inl ⟨b :: frame, result, List.cons_prefix_cons.2 ⟨rfl, hp⟩,
        (takes_code b).bind_cons htaken, ?_⟩
      cases result <;> exact hspec
    · exact .inr ((takes_code b).bind_cons_starves hstarves)

/-- A chunk that is cut off, wherever it is, leaves the reader wanting more. -/
theorem starves_of_cut {bytes payload cut : Bytes} (h : IsChunk compression bounds bytes payload)
    (hp : cut <+: bytes) (hne : cut ≠ bytes) :
    (readChunk compression bounds).Starves cut atEnd :=
  (decides_readChunk compression bounds).starves_of_cut (takes_readChunk h) hp hne

/-- A payload that is read was in a complete chunk. -/
theorem exists_of_readChunk_ok {s s' : Source} {payload : Bytes}
    (h : readChunk compression bounds s = (.ok payload, s')) :
    ∃ taken, IsChunk compression bounds taken payload ∧ s.After taken s' := by
  rcases (decides_readChunk compression bounds).run s with
    ⟨taken, result, s₁, -, hspec, hafter, hread⟩ | ⟨s₁, -, -, hread⟩
  · cases result with
    | error e => cases h.symm.trans hread
    | ok payload' =>
      cases h.symm.trans hread
      exact ⟨taken, hspec, hafter⟩
  · cases h.symm.trans hread

/-- A close is reported at the end of the stream only, when another chunk was not complete. -/
theorem starves_of_readChunk_closed {s s' : Source}
    (h : readChunk compression bounds s = (.error (.failed .closed), s')) :
    (readChunk compression bounds).Starves s.remaining atEnd ∧ s.After s.remaining s' ∧
      atEnd s.ending = .failed .closed := by
  rcases (decides_readChunk compression bounds).run s with
    ⟨taken, result, s₁, -, hspec, -, hread⟩ | ⟨s₁, hstarves, hafter, hread⟩
  · have same := congrArg Prod.fst (h.symm.trans hread)
    cases result with
    | ok payload => cases same
    | error e => exact absurd (Halt.failed.inj (Except.error.inj same)).symm hspec
  · have same := h.symm.trans hread
    obtain rfl : s' = s₁ := congrArg Prod.snd same
    exact ⟨hstarves, hafter, (Except.error.inj (congrArg Prod.fst same)).symm⟩

/-! ## Rows of chunks -/

section Responses

variable {Resp : Type} [Ssz Resp]

/-- Whether `bytes` are a complete chunk with the response. -/
def IsResponse (compression : Compression) (bounds : SizeBounds) (bytes : Bytes)
    (response : Resp) : Prop :=
  ∃ payload, IsChunk compression bounds bytes payload ∧ Ssz.decode Resp payload = .ok response

variable {chunks : List Bytes} {responses : List Resp} {s : Source} {n : Nat} {started : Bool}

/-- The outcome of reading with `responses` put in front of those that were read. -/
def prepend (responses : List Resp) (outcome : Except (Halt RpcError) (List Resp) × Source) :
    Except (Halt RpcError) (List Resp) × Source :=
  (outcome.1.map (responses ++ ·), outcome.2)

omit [Ssz Resp] in
theorem prepend_nil (outcome : Except (Halt RpcError) (List Resp) × Source) :
    prepend [] outcome = outcome := by
  obtain ⟨result, s⟩ := outcome
  cases result <;> rfl

omit [Ssz Resp] in
theorem prepend_prepend (a b : List Resp) (outcome : Except (Halt RpcError) (List Resp) × Source) :
    prepend a (prepend b outcome) = prepend (a ++ b) outcome := by
  obtain ⟨result, s⟩ := outcome
  cases result with
  | error halt => rfl
  | ok responses => simp [prepend, Except.map]

theorem readResponses_zero (started : Bool) (s : Source) :
    @Method.readResponses Resp _ compression bounds 0 started s = (.ok [], s) := rfl

/-- What the loop does with what was read for a chunk. -/
theorem readResponses_succ (n : Nat) (started : Bool) (s : Source) :
    @Method.readResponses Resp _ compression bounds (n + 1) started s =
      match readChunk compression bounds s with
      | (.ok payload, s) =>
        match Ssz.decode Resp payload with
        | .error e => (.error (.failed (.codec e)), s)
        | .ok response => prepend [response] (Method.readResponses compression bounds n true s)
      | (.error halt, s) =>
        (if started = true ∧ halt = .failed .closed then .ok [] else .error halt, s) := by
  simp only [Method.readResponses]
  rcases hread : readChunk compression bounds s with ⟨halt | payload, s'⟩
  · by_cases hclosed : halt = .failed .closed
    · subst hclosed
      cases started <;> rfl
    · simp only [hclosed, and_false, if_false]
  · dsimp only
    cases Ssz.decode Resp payload with
    | error e => rfl
    | ok response =>
      dsimp only
      rcases hrest : @Method.readResponses Resp _ compression bounds n true s' with
        ⟨halt | responses, s''⟩ <;> rfl

/-- A loop that succeeds has read a response and gone on, or it has taken a close for the end. -/
theorem exists_of_readResponses_succ_ok {s' : Source}
    (h : Method.readResponses compression bounds (n + 1) started s = (.ok responses, s')) :
    (∃ payload response more s₁, readChunk compression bounds s = (.ok payload, s₁) ∧
        Ssz.decode Resp payload = .ok response ∧
        Method.readResponses compression bounds n true s₁ = (.ok more, s') ∧
        responses = response :: more) ∨
      readChunk compression bounds s = (.error (.failed .closed), s') ∧ started = true ∧
        responses = [] := by
  rw [readResponses_succ] at h
  rcases hread : readChunk compression bounds s with ⟨halt | payload, s₁⟩
  · rw [hread] at h
    dsimp only at h
    split at h
    · rename_i hclosed
      obtain ⟨hstarted, rfl⟩ := hclosed
      cases h
      exact .inr ⟨rfl, hstarted, rfl⟩
    · cases h
  · rw [hread] at h
    dsimp only at h
    cases hdecode : Ssz.decode Resp payload with
    | error e =>
      rw [hdecode] at h
      cases h
    | ok response =>
      rw [hdecode] at h
      rcases hrest : @Method.readResponses Resp _ compression bounds n true s₁ with
        ⟨halt | more, s₂⟩
      · rw [hrest] at h
        cases h
      · rw [hrest] at h
        cases h
        exact .inl ⟨payload, response, more, s₁, rfl, hdecode, hrest, rfl⟩

/-- A complete chunk at the front is taken, and reading goes on after it. -/
theorem readResponses_of_response {bytes rest : Bytes} {response : Resp}
    (h : IsResponse compression bounds bytes response) (hs : s.remaining = bytes ++ rest) :
    ∃ s', s.After bytes s' ∧ Method.readResponses compression bounds (n + 1) started s =
      prepend [response] (Method.readResponses compression bounds n true s') := by
  obtain ⟨payload, hchunk, hdecode⟩ := h
  obtain ⟨s', hread, hafter⟩ := takes_readChunk hchunk s _ hs
  refine ⟨s', hafter, ?_⟩
  rw [readResponses_succ, hread]
  simp only [mapError_ok, hdecode]

/-- Complete chunks at the front are taken, and reading goes on after them. -/
theorem readResponses_append (n : Nat) (started : Bool) {rest : Bytes}
    (h : List.Forall₂ (IsResponse compression bounds) chunks responses)
    (hs : s.remaining = chunks.flatten ++ rest) :
    ∃ s', s.After chunks.flatten s' ∧
      Method.readResponses compression bounds (responses.length + n) started s =
        prepend responses (Method.readResponses compression bounds n
          (started || !responses.isEmpty) s') := by
  induction h generalizing s started with
  | nil =>
    refine ⟨s, .refl s, ?_⟩
    simp only [List.length_nil, Nat.zero_add, List.isEmpty_nil, Bool.not_true, Bool.or_false,
      prepend_nil]
  | @cons bytes response chunks responses hresponse _ ih =>
    rw [List.flatten_cons, List.append_assoc] at hs
    obtain ⟨s₁, hafter, hread⟩ := readResponses_of_response hresponse hs
    obtain ⟨s₂, hafter', hread'⟩ := ih true (hafter.rest_eq hs)
    refine ⟨s₂, ?_, ?_⟩
    · rw [List.flatten_cons]
      exact hafter.trans hafter'
    · rw [List.length_cons, Nat.add_right_comm, hread, hread', prepend_prepend, Bool.true_or,
        List.isEmpty_cons, Bool.not_false, Bool.or_true, List.singleton_append]

variable (Resp) in
/-- When the source ends after an unfinished chunk, the response ends there if that is reported as
a close and there was a chunk before, and the call stops otherwise. -/
theorem readResponses_of_starves (n : Nat) (started : Bool)
    (h : (readChunk compression bounds).Starves s.remaining atEnd) :
    ∃ s', s.After s.remaining s' ∧
      @Method.readResponses Resp _ compression bounds (n + 1) started s =
        (if started = true ∧ atEnd s.ending = .failed .closed then .ok []
          else .error (atEnd s.ending), s') := by
  obtain ⟨s', hread, hafter⟩ := h s rfl
  refine ⟨s', hafter, ?_⟩
  rw [readResponses_succ, hread]

variable (Resp) in
/-- When another chunk is refused, so is the response. -/
theorem readResponses_of_error (n : Nat) (started : Bool) {taken rest : Bytes} {e : RpcError}
    (h : (readChunk compression bounds).Takes taken (.error e)) (he : e ≠ .closed)
    (hs : s.remaining = taken ++ rest) :
    ∃ s', s.After taken s' ∧
      @Method.readResponses Resp _ compression bounds (n + 1) started s =
        (.error (.failed e), s') := by
  obtain ⟨s', hread, hafter⟩ := h s rest hs
  refine ⟨s', hafter, ?_⟩
  rw [readResponses_succ, hread]
  have : ¬ (started = true ∧ Halt.failed e = .failed .closed) := fun h => he (Halt.failed.inj h.2)
  simp only [mapError_error, if_neg this]

/-- Whatever is read is made of complete chunks. There are as many as were asked for, or after them
the source ended in a way that is reported as a close, whatever stood before its end. -/
theorem exists_of_readResponses_ok {s' : Source}
    (h : Method.readResponses compression bounds n started s = (.ok responses, s')) :
    ∃ chunks tail, s.After (chunks.flatten ++ tail) s' ∧
      List.Forall₂ (IsResponse compression bounds) chunks responses ∧
      (responses.length = n ∧ tail = [] ∨
        responses.length < n ∧ (started = true ∨ responses ≠ []) ∧ s'.remaining = [] ∧
          (readChunk compression bounds).Starves tail atEnd ∧
          atEnd s.ending = .failed .closed) := by
  induction n generalizing s started responses with
  | zero =>
    cases h
    exact ⟨[], [], .refl _, .nil, .inl ⟨rfl, rfl⟩⟩
  | succ n ih =>
    rcases exists_of_readResponses_succ_ok h with
      ⟨payload, response, more, s₁, hread, hdecode, hmore, rfl⟩ | ⟨hread, hstarted, rfl⟩
    · obtain ⟨taken, hchunk, hafter⟩ := exists_of_readChunk_ok hread
      obtain ⟨chunks, tail, hafter', hchunks, hend⟩ := ih hmore
      refine ⟨taken :: chunks, tail, ?_, .cons ⟨payload, hchunk, hdecode⟩ hchunks, ?_⟩
      · rw [List.flatten_cons, List.append_assoc]
        exact hafter.trans hafter'
      · rw [← hafter.ending]
        rcases hend with ⟨hlength, htail⟩ | ⟨hlength, -, hrest⟩
        · exact .inl ⟨congrArg (· + 1) hlength, htail⟩
        · exact .inr ⟨Nat.succ_lt_succ hlength, .inr (List.cons_ne_nil _ _), hrest⟩
    · obtain ⟨hstarves, hafter, hclosed⟩ := starves_of_readChunk_closed hread
      have nothing := hafter.rest_eq (List.append_nil _).symm
      exact ⟨[], s.remaining, hafter, .nil,
        .inr ⟨Nat.succ_pos n, .inl hstarted, nothing, hstarves, hclosed⟩⟩

end Responses

end PeerCensus.Rpc
