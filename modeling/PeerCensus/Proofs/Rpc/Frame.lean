import PeerCensus.Proofs.Snappy.Limit
import PeerCensus.Proofs.Wire.Varint
import PeerCensus.Rpc.Frame

/-!
# Which bytes are a frame

A frame of a payload is a varint of the payload's length and a body, which is the payload or frames
of it that are not longer than its length allows. The reader of frames takes exactly such bytes.
When the stream ends inside a frame it starves, and a close is never what it makes of bytes that it
has taken.

Results:
* `takes_readFrame`: the reader takes a frame for its payload.
* `decides_readFrame`: bytes that the reader takes for a payload are a frame of it.
* `isFrame_encodeFrame_of_limit`, `isFrame_encodeFrame`: what is written for a payload is a frame of
  it.
-/

namespace PeerCensus.Rpc

open Snappy (Collector IsFraming)
open Snappy.Collector (Fed)

/-- How a call stops when it wants more than a stream has. -/
def atEnd : Ending → Halt RpcError :=
  Ending.halt .closed .ofFault

/-- What a reader comes to that gives values as `P` says: such a value, or an error other than a
close, which is for the end of the stream. -/
def Gives (P : Bytes → α → Prop) (taken : Bytes) : Except RpcError α → Prop
  | .ok a => P taken a
  | .error e => e ≠ .closed

/-- Whether `bytes` are the body of a frame of the payload. -/
def IsBody (compression : Compression) (bytes payload : Bytes) : Prop :=
  match compression with
  | .plain => bytes = payload
  | .snappy => IsFraming bytes payload ∧
      ∃ limit, Snappy.maxEncodedLength payload.length = some limit ∧ bytes.length ≤ limit

/-- Whether `bytes` are a frame of the payload, whose length is within the bounds. -/
def IsFrame (compression : Compression) (bounds : SizeBounds) (bytes payload : Bytes) : Prop :=
  bounds.contains payload.length = true ∧
    ∃ length body, bytes = length ++ body ∧
      Varint.decode length = .ok (payload.length, length.length) ∧ IsBody compression body payload

/-! ## Readers of a call -/

theorem Gives.decides_bind {r : Reader RpcError α} {k : α → Reader RpcError β}
    {P : Bytes → α → Prop} {Q : Bytes → β → Prop} (h : r.Decides (Gives P) atEnd)
    (hk : ∀ taken a, P taken a → (k a).Decides (Gives fun more => Q (taken ++ more)) atEnd) :
    (r >>= k).Decides (Gives Q) atEnd := by
  refine h.bind (fun taken a ha => (hk taken a ha).mono fun more result hq => ?_) fun _ _ he => he
  cases result <;> exact hq

theorem decides_fail {P : Bytes → α → Prop} {e : RpcError} (h : e ≠ .closed) :
    (Reader.fail e : Reader RpcError α).Decides (Gives P) atEnd :=
  (Reader.takes_fail e).decides h

/-- Reads `n` bytes for a call. -/
def exactly (n : Nat) : Reader RpcError Bytes :=
  Reader.mapError RpcError.ofFault (Reader.exactly n)

theorem takes_exactly {n : Nat} {bytes : Bytes} (h : bytes.length = n) :
    (exactly n).Takes bytes (.ok bytes) :=
  (Reader.takes_exactly h).mapError _

theorem decides_exactly (n : Nat) :
    (exactly n).Decides (Gives fun taken bytes => taken.length = n ∧ bytes = taken) atEnd := by
  have early : RpcError.ofFault Reader.earlyEnd = .closed :=
    (RpcError.ofFault_eq_closed_iff _).2 (by decide)
  rw [atEnd, ← early]
  refine (Reader.decides_exactly n).mapError ?_
  rintro taken result ⟨hlength, rfl⟩
  exact ⟨hlength, rfl⟩

/-- The declared length takes the bytes of a varint. -/
theorem decides_length :
    (Reader.mapError RpcError.ofVarint Varint.read).Decides
      (Gives fun taken n => Varint.decode taken = .ok (n, taken.length)) atEnd := by
  intro bytes
  cases h : Varint.decode bytes with
  | ok found =>
    obtain ⟨v, n⟩ := found
    have whole := Varint.decode_take h
    exact .inl ⟨bytes.take n, _, List.take_prefix .., (Varint.takes_read whole).mapError _, whole⟩
  | error fault =>
    cases fault with
    | truncated =>
      refine .inr ?_
      have := (Varint.starves_read h).mapError RpcError.ofVarint
      split at this <;> exact this
    | overflow =>
      obtain ⟨taken, hp, -, htaken⟩ := Varint.takes_read_overflow h
      exact .inl ⟨taken, _, hp, htaken.mapError _, nofun⟩

/-! ## Collecting -/

theorem collect_of_complete {limit consumed : Nat} {c : Collector} (h : c.wants = none) :
    collect limit consumed c =
      Reader.ofExcept (c.finish.mapError fun e => .compression (.invalidEncoding e)) := by
  rw [collect]
  split
  · rfl
  · rename_i wanted
    rw [h] at wanted
    cases wanted

/-- What follows once the collector has got the bytes that it wanted. -/
def collectNext (limit consumed : Nat) (c : Collector) (bytes : Bytes) : Reader RpcError Bytes :=
  match c.feed bytes with
  | .error e => Reader.fail (.compression (.invalidEncoding e))
  | .ok next => collect limit consumed next

theorem collect_of_wants {limit consumed wanted : Nat} {c : Collector} (h : c.wants = some wanted)
    (hlimit : consumed + wanted ≤ limit) :
    collect limit consumed c = exactly wanted >>= collectNext limit (consumed + wanted) c := by
  rw [collect]
  split
  · rename_i complete
    rw [h] at complete
    cases complete
  · rename_i wanted' h'
    obtain rfl : wanted = wanted' := Option.some.inj (h.symm.trans h')
    rw [dif_pos hlimit]
    refine congrArg _ (funext fun bytes => ?_)
    rw [collectNext]
    split <;> rename_i hfed <;> rw [hfed]

theorem collect_of_exceeded {limit consumed wanted : Nat} {c : Collector}
    (h : c.wants = some wanted) (hlimit : ¬ consumed + wanted ≤ limit) :
    collect limit consumed c = Reader.fail (.violation (.encodedLengthExceeded limit)) := by
  rw [collect]
  split
  · rename_i complete
    rw [h] at complete
    cases complete
  · rename_i wanted' h'
    obtain rfl : wanted = wanted' := Option.some.inj (h.symm.trans h')
    rw [dif_neg hlimit]

/-- The pieces that make a collector complete are taken, if they are within the limit. -/
theorem takes_collect {limit consumed : Nat} {c c' : Collector} {pieces : List Bytes}
    (h : Fed c pieces c') (hw : c'.wants = none)
    (hlimit : consumed + pieces.flatten.length ≤ limit) :
    (collect limit consumed c).Takes pieces.flatten
      (c'.finish.mapError fun e => .compression (.invalidEncoding e)) := by
  induction h generalizing consumed with
  | nil c =>
    rw [collect_of_complete hw]
    exact Reader.takes_ofExcept _
  | cons hwants hfeed _ ih =>
    rw [List.flatten_cons, List.length_append] at hlimit
    rw [collect_of_wants hwants (by omega), List.flatten_cons]
    refine (takes_exactly rfl).bind ?_
    rw [collectNext, hfeed]
    exact ih hw (by omega)

/-- Whatever is taken for a payload makes the collector complete. -/
theorem decides_collect {limit consumed : Nat} {c : Collector} (hc : consumed ≤ limit) :
    (collect limit consumed c).Decides (Gives fun taken raw => consumed + taken.length ≤ limit ∧
      ∃ pieces c', taken = pieces.flatten ∧ Fed c pieces c' ∧ c'.wants = none ∧
        c'.finish = .ok raw) atEnd := by
  induction consumed, c using collect.induct limit with
  | case1 consumed c hw =>
    rw [collect_of_complete hw]
    refine (Reader.takes_ofExcept _).decides ?_
    cases hfinish : c.finish with
    | error e => exact nofun
    | ok raw => exact ⟨hc, [], c, rfl, .nil c, hw, hfinish⟩
  | case2 consumed c wanted hw hlimit ih =>
    rw [collect_of_wants hw hlimit]
    refine Gives.decides_bind (decides_exactly wanted) ?_
    rintro taken bytes ⟨hlength, rfl⟩
    rw [collectNext]
    cases hfed : c.feed bytes with
    | error e => exact decides_fail nofun
    | ok next =>
      refine (ih bytes next hfed hlimit).mono ?_
      rintro more (e | raw) hspec
      · exact hspec
      · obtain ⟨hsize, pieces, c', rfl, hfed', hcomplete, hraw⟩ := hspec
        refine ⟨?_, bytes :: pieces, c', List.flatten_cons.symm, ?_, hcomplete, hraw⟩
        · rw [List.length_append]
          omega
        · exact .cons (by rw [hw, hlength]) hfed hfed'
  | case3 consumed c wanted hw hlimit =>
    rw [collect_of_exceeded hw hlimit]
    exact decides_fail nofun

/-! ## Frames -/

/-- What follows once the declared length of a payload is known. -/
def readBody (compression : Compression) (bounds : SizeBounds) (declared : Nat) :
    Reader RpcError Bytes :=
  if bounds.contains declared then
    match compression with
    | .plain => exactly declared
    | .snappy =>
      match Snappy.maxEncodedLength declared with
      | none => Reader.fail (outOfBounds declared bounds)
      | some limit => collect limit 0 (.new declared)
  else Reader.fail (outOfBounds declared bounds)

theorem readFrame_eq (compression : Compression) (bounds : SizeBounds) :
    readFrame compression bounds =
      Reader.mapError RpcError.ofVarint Varint.read >>= readBody compression bounds := rfl

theorem takes_readBody {compression : Compression} {bounds : SizeBounds} {body payload : Bytes}
    (hbounds : bounds.contains payload.length = true) (h : IsBody compression body payload) :
    (readBody compression bounds payload.length).Takes body (.ok payload) := by
  rw [readBody.eq_def, if_pos hbounds]
  cases compression with
  | plain =>
    obtain rfl : body = payload := h
    exact takes_exactly rfl
  | snappy =>
    obtain ⟨hframing, limit, hlimit, hle⟩ := h
    obtain ⟨pieces, c', rfl, hfed, hw, hraw⟩ := Collector.fed_of_isFraming hframing
    have taken : (collect limit 0 (.new payload.length)).Takes pieces.flatten _ :=
      takes_collect hfed hw (by omega)
    rw [hraw] at taken
    rw [hlimit]
    exact taken

theorem decides_readBody (compression : Compression) (bounds : SizeBounds) (declared : Nat) :
    (readBody compression bounds declared).Decides (Gives fun body payload =>
      payload.length = declared ∧ bounds.contains declared = true ∧
        IsBody compression body payload) atEnd := by
  rw [readBody.eq_def]
  by_cases hbounds : bounds.contains declared = true
  · rw [if_pos hbounds]
    cases compression with
    | plain =>
      refine (decides_exactly declared).mono ?_
      rintro taken (e | payload) hspec
      · exact hspec
      · obtain ⟨rfl, rfl⟩ := hspec
        exact ⟨rfl, hbounds, rfl⟩
    | snappy =>
      cases hlimit : Snappy.maxEncodedLength declared with
      | none =>
        exact decides_fail nofun
      | some limit =>
        refine (decides_collect (Nat.zero_le limit)).mono ?_
        rintro taken (e | payload) hspec
        · exact hspec
        · obtain ⟨hsize, pieces, c', rfl, hfed, hw, hraw⟩ := hspec
          obtain ⟨hframing, rfl⟩ := Collector.isFraming_of_fed hfed hw hraw
          exact ⟨rfl, hbounds, hframing, limit, hlimit, by omega⟩
  · rw [if_neg hbounds]
    exact decides_fail nofun

/-- The reader takes a frame for its payload. -/
theorem takes_readFrame {compression : Compression} {bounds : SizeBounds} {bytes payload : Bytes}
    (h : IsFrame compression bounds bytes payload) :
    (readFrame compression bounds).Takes bytes (.ok payload) := by
  obtain ⟨hbounds, length, body, rfl, hlength, hbody⟩ := h
  rw [readFrame_eq]
  exact ((Varint.takes_read hlength).mapError _).bind (takes_readBody hbounds hbody)

/-- Bytes that the reader takes for a payload are a frame of it. -/
theorem decides_readFrame (compression : Compression) (bounds : SizeBounds) :
    (readFrame compression bounds).Decides (Gives (IsFrame compression bounds)) atEnd := by
  rw [readFrame_eq]
  refine Gives.decides_bind decides_length fun length declared hlength => ?_
  refine (decides_readBody compression bounds declared).mono ?_
  rintro body (e | payload) hspec
  · exact hspec
  · obtain ⟨rfl, hbounds, hbody⟩ := hspec
    exact ⟨hbounds, length, body, rfl, hlength, hbody⟩

/-- What is written for a payload is a frame of it, if its length can be written as a varint and, for
snappy frames, has a limit. -/
theorem isFrame_encodeFrame_of_limit {compression : Compression} {bounds : SizeBounds}
    {payload : Bytes} (hbounds : bounds.contains payload.length = true)
    (hlength : payload.length < 2 ^ 64)
    (hlimit : compression = .snappy → ∃ limit, Snappy.maxEncodedLength payload.length = some limit) :
    IsFrame compression bounds (encodeFrame compression payload) payload := by
  refine ⟨hbounds, Varint.encode payload.length, _, rfl, Varint.decode_encode hlength, ?_⟩
  cases compression with
  | plain => exact rfl
  | snappy =>
    obtain ⟨limit, hlimit⟩ := hlimit rfl
    exact ⟨Snappy.isFraming_encode payload, limit, hlimit, Snappy.length_encode_le hlimit⟩

/-- What is written for a payload is a frame of it. -/
theorem isFrame_encodeFrame {compression : Compression} {bounds : SizeBounds} {payload : Bytes}
    (hbounds : bounds.contains payload.length = true) (hlength : payload.length < 2 ^ 63) :
    IsFrame compression bounds (encodeFrame compression payload) payload :=
  isFrame_encodeFrame_of_limit hbounds (by omega) fun _ => Snappy.maxEncodedLength_isSome hlength

end PeerCensus.Rpc
