import PeerCensus.Proofs.Rpc.Response

/-!
# How much a reader takes

Whoever sends a frame decides what stands in it, but not how much of it is read. The declared length
comes first. If it is not allowed, nothing is read after it; if it is, there is a most that its
payload may take, and every read asks for no more than what is left of that. So the reader comes to
an end whatever it is sent, unless the other side falls silent.

Results:
* `rations_collect`: snappy frames are read in blocks that fit into what is left of their limit.
* `rationed_readFrame`: so is the payload of every frame.
* `guarded_readFrame`: what may come of a frame, by what its declared length is.
* `readers_guarded`: a request and a chunk of a response are read so.
-/

namespace PeerCensus.Rpc

open Snappy (Collector)

variable {compression : Compression} {bounds : SizeBounds}

/-! ## What is allowed -/

/-- The most bytes that the body of a frame may take for a payload of the declared length; `none` if
there may be no such payload. -/
def allowance (compression : Compression) (bounds : SizeBounds) (declared : Nat) : Option Nat :=
  if bounds.contains declared then
    match compression with
    | .plain => some declared
    | .snappy => Snappy.maxEncodedLength declared
  else none

/-- A reader that reads in blocks, each of which fits into what those before it have left of the
room. -/
inductive Rations : Nat → Reader RpcError Bytes → Prop
  | done {room : Nat} (result : Except RpcError Bytes) : Rations room (Reader.ofExcept result)
  | block {room n : Nat} {k : Bytes → Reader RpcError Bytes} :
    n ≤ room → (∀ bytes, bytes.length = n → Rations (room - n) (k bytes)) →
      Rations room (exactly n >>= k)

/-- A reader that reads the length of a payload first, and then no more than it allows. -/
def Rationed (compression : Compression) (bounds : SizeBounds) (r : Reader RpcError Bytes) : Prop :=
  ∃ k, r = Reader.mapError RpcError.ofVarint Varint.read >>= k ∧
    ∀ declared, Rations ((allowance compression bounds declared).getD 0) (k declared)

/-- What may come of a frame at the front of the source `s`, which becomes `s'`. -/
structure Guarded (compression : Compression) (bounds : SizeBounds) (s : Source)
    (result : Except (Halt RpcError) Bytes) (s' : Source) : Prop where
  /-- The reader comes to an end. -/
  answered : result ≠ .error .hung
  /-- Without a length there is no payload, and no more is taken than a length may have. -/
  unmeasured : ∀ fault, Varint.decode s.remaining = .error fault →
    ∃ e taken, result = .error (.failed e) ∧ s.After taken s' ∧ taken.length ≤ Varint.maxLength
  /-- A length that is not allowed is refused, and nothing after it is taken. -/
  refused : ∀ declared n, Varint.decode s.remaining = .ok (declared, n) →
    allowance compression bounds declared = none →
      result = .error (.failed (outOfBounds declared bounds)) ∧ s.After (s.remaining.take n) s'
  /-- After a length no more is taken than it allows. -/
  rationed : ∀ declared n limit, Varint.decode s.remaining = .ok (declared, n) →
    allowance compression bounds declared = some limit →
      ∃ body, s.After (s.remaining.take n ++ body) s' ∧ body.length ≤ limit
  /-- A payload has the declared length. -/
  measured : ∀ payload, result = .ok payload →
    bounds.contains payload.length = true ∧
      ∃ n, Varint.decode s.remaining = .ok (payload.length, n)

/-! ## Reading in blocks -/

/-- Who wants more than a stream has fails, unless the stream is silent. -/
theorem exists_of_halt {onClose : RpcError} {onFault : Fault → RpcError} {ending : Ending}
    (h : ending ≠ .silent) : ∃ e, Ending.halt onClose onFault ending = .failed e := by
  cases ending with
  | closed => exact ⟨_, rfl⟩
  | failing fault => exact ⟨_, rfl⟩
  | silent => exact absurd rfl h

/-- Reading in blocks takes no more than there is room for, and comes to an end. -/
theorem Rations.run {room : Nat} {r : Reader RpcError Bytes} (h : Rations room r) (s : Source) :
    ∃ taken, s.After taken (r s).2 ∧ taken.length ≤ room ∧
      (s.ending ≠ .silent → (r s).1 ≠ .error .hung) := by
  induction h generalizing s with
  | @done room result =>
    obtain ⟨s', hread, hafter⟩ := Reader.takes_ofExcept result s s.remaining rfl
    rw [hread]
    refine ⟨[], hafter, Nat.zero_le _, fun _ => ?_⟩
    cases result <;> nofun
  | @block room n k hroom _ ih =>
    rw [Reader.bind_apply]
    rcases Nat.lt_or_ge s.remaining.length n with hshort | hlong
    · obtain ⟨s₁, hread, hafter⟩ :=
        (Reader.starves_exactly hshort).mapError RpcError.ofFault s rfl
      rw [exactly, hread]
      refine ⟨s.remaining, hafter, by omega, fun hanswers => ?_⟩
      obtain ⟨e, he⟩ := exists_of_halt hanswers
      rw [he]
      nofun
    · have hlength := List.length_take_of_le hlong
      obtain ⟨s₁, hread, hafter⟩ :=
        takes_exactly hlength s (s.remaining.drop n) (List.take_append_drop ..).symm
      obtain ⟨more, hmore, hroom', hanswered⟩ := ih _ hlength s₁
      rw [hread]
      refine ⟨s.remaining.take n ++ more, hafter.trans hmore, ?_, fun hanswers => ?_⟩
      · rw [List.length_append]
        omega
      · exact hanswered (hafter.ending ▸ hanswers)

/-- Snappy frames are read in blocks that fit into what is left of their limit. -/
theorem rations_collect {limit consumed : Nat} {c : Collector} (hc : consumed ≤ limit) :
    Rations (limit - consumed) (collect limit consumed c) := by
  induction consumed, c using collect.induct limit with
  | case1 consumed c hw =>
    rw [collect_of_complete hw]
    exact .done _
  | case2 consumed c wanted hw hlimit ih =>
    rw [collect_of_wants hw hlimit]
    refine .block (by omega) fun bytes _ => ?_
    rw [collectNext]
    cases hfed : c.feed bytes with
    | error e => exact .done (.error _)
    | ok next =>
      have := ih bytes next hfed hlimit
      rwa [← Nat.sub_sub] at this
  | case3 consumed c wanted hw hlimit =>
    rw [collect_of_exceeded hw hlimit]
    exact .done (.error _)

/-- A block that is the whole result. -/
theorem rations_exactly (n : Nat) : Rations n (exactly n) := by
  have alone : exactly n = exactly n >>= fun bytes => Reader.ofExcept (.ok bytes) := by
    funext s
    rw [Reader.bind_apply]
    rcases exactly n s with ⟨e | bytes, s'⟩ <;> rfl
  rw [alone]
  exact .block (Nat.le_refl n) fun bytes _ => .done (.ok bytes)

/-- What comes of the bytes may depend on them. -/
theorem Rations.bind_ofExcept {room : Nat} {r : Reader RpcError Bytes} (h : Rations room r)
    (f : Bytes → Except RpcError Bytes) :
    Rations room (r >>= fun bytes => Reader.ofExcept (f bytes)) := by
  induction h with
  | done result =>
    cases result with
    | error e => exact .done (.error e)
    | ok bytes => exact .done (f bytes)
  | block hroom _ ih =>
    rw [bind_assoc]
    exact .block hroom ih

/-! ## Frames -/

/-- A length that is not allowed is refused. -/
theorem readBody_of_refused {declared : Nat} (h : allowance compression bounds declared = none) :
    readBody compression bounds declared = Reader.fail (outOfBounds declared bounds) := by
  rw [readBody.eq_def]
  simp only [allowance] at h
  split at h
  · rename_i hbounds
    rw [if_pos hbounds]
    cases compression with
    | plain => cases h
    | snappy =>
      have hlimit : Snappy.maxEncodedLength declared = none := h
      rw [hlimit]
  · rename_i hbounds
    exact if_neg hbounds

theorem rations_readBody (compression : Compression) (bounds : SizeBounds) (declared : Nat) :
    Rations ((allowance compression bounds declared).getD 0)
      (readBody compression bounds declared) := by
  cases h : allowance compression bounds declared with
  | none =>
    rw [readBody_of_refused h]
    exact .done (.error _)
  | some limit =>
    simp only [allowance, Option.ite_none_right_eq_some] at h
    obtain ⟨hbounds, hlimit⟩ := h
    rw [readBody.eq_def, if_pos hbounds]
    cases compression with
    | plain =>
      cases hlimit
      exact rations_exactly declared
    | snappy =>
      have hlimit : Snappy.maxEncodedLength declared = some limit := hlimit
      rw [hlimit]
      exact rations_collect (Nat.zero_le limit)

/-- A payload has the declared length, which is within the bounds. -/
theorem length_of_readBody {declared : Nat} {s : Source} {payload : Bytes}
    (h : (readBody compression bounds declared s).1 = .ok payload) :
    payload.length = declared ∧ bounds.contains declared = true := by
  rcases (decides_readBody compression bounds declared).run s with
    ⟨taken, result, s', -, hspec, -, hread⟩ | ⟨s', -, -, hread⟩
  · rw [hread] at h
    cases result with
    | error e => cases h
    | ok found =>
      cases h
      exact ⟨hspec.1, hspec.2.1⟩
  · rw [hread] at h
    cases h

/-- A frame is read with no more after its length than that allows. -/
theorem rationed_readFrame (compression : Compression) (bounds : SizeBounds) :
    Rationed compression bounds (readFrame compression bounds) :=
  ⟨_, readFrame_eq compression bounds, rations_readBody compression bounds⟩

/-- A source without a length at its front: what is taken of it is not more than a length may have. -/
theorem readFrame_of_decode_error (compression : Compression) (bounds : SizeBounds) {s : Source}
    {fault : Varint.Fault} (hanswers : s.ending ≠ .silent)
    (h : Varint.decode s.remaining = .error fault) :
    ∃ e taken s', readFrame compression bounds s = (.error (.failed e), s') ∧ s.After taken s' ∧
      taken.length ≤ Varint.maxLength := by
  rw [readFrame_eq]
  cases fault with
  | truncated =>
    have hlength := Varint.length_lt_of_truncated (by decide) h
    obtain ⟨s', hread, hafter⟩ :=
      (((Varint.starves_read h).mapError RpcError.ofVarint).bind
        (k := readBody compression bounds)) s rfl
    obtain ⟨e, he⟩ := exists_of_halt hanswers
    exact ⟨e, s.remaining, s', he ▸ hread, hafter, by omega⟩
  | overflow =>
    obtain ⟨taken, ⟨rest, hrest⟩, hlength, htakes⟩ := Varint.takes_read_overflow h
    obtain ⟨s', hread, hafter⟩ :=
      ((htakes.mapError RpcError.ofVarint).bind_error
        (k := readBody compression bounds)) s rest hrest.symm
    exact ⟨_, taken, s', hread, hafter, hlength⟩

/-- After its length a frame is read as that says. -/
theorem readFrame_of_decode_ok (compression : Compression) (bounds : SizeBounds) {s : Source}
    {declared n : Nat} (h : Varint.decode s.remaining = .ok (declared, n)) :
    ∃ s₁, readFrame compression bounds s = readBody compression bounds declared s₁ ∧
      s.After (s.remaining.take n) s₁ := by
  have htakes := (Varint.takes_read (Varint.decode_take h)).mapError RpcError.ofVarint
  obtain ⟨s₁, hread, hafter⟩ := htakes s (s.remaining.drop n) (List.take_append_drop ..).symm
  refine ⟨s₁, ?_, hafter⟩
  rw [readFrame_eq, Reader.bind_apply, hread]
  rfl

/-- What may come of a frame, by what its declared length is. -/
theorem guarded_readFrame (compression : Compression) (bounds : SizeBounds) {s : Source}
    (hanswers : s.ending ≠ .silent) :
    Guarded compression bounds s (readFrame compression bounds s).1
      (readFrame compression bounds s).2 := by
  cases hdecode : Varint.decode s.remaining with
  | error fault =>
    obtain ⟨e, taken, s', hread, hafter, hlength⟩ :=
      readFrame_of_decode_error compression bounds hanswers hdecode
    rw [hread]
    exact {
      answered := nofun
      unmeasured := fun _ _ => ⟨e, taken, rfl, hafter, hlength⟩
      refused := fun _ _ h => nomatch hdecode.symm.trans h
      rationed := fun _ _ _ h => nomatch hdecode.symm.trans h
      measured := nofun }
  | ok found =>
    obtain ⟨declared, n⟩ := found
    obtain ⟨s₁, hread, hlength⟩ := readFrame_of_decode_ok compression bounds hdecode
    obtain ⟨body, hafter, hroom, hanswered⟩ :=
      (rations_readBody compression bounds declared).run s₁
    rw [hread]
    exact {
      answered := hanswered (hlength.ending ▸ hanswers)
      unmeasured := fun _ h => nomatch hdecode.symm.trans h
      refused := by
        intro declared' n' h hrefused
        cases hdecode.symm.trans h
        rw [readBody_of_refused hrefused]
        exact ⟨rfl, hlength⟩
      rationed := by
        intro declared' n' limit h hlimit
        cases hdecode.symm.trans h
        rw [hlimit] at hroom
        exact ⟨body, hlength.trans hafter, hroom⟩
      measured := by
        intro payload hpayload
        obtain ⟨rfl, hbounds⟩ := length_of_readBody hpayload
        exact ⟨hbounds, n, hdecode⟩ }

/-! ## Chunks of a response -/

/-- The bounds of what stands after a code. -/
def inForce (bounds : SizeBounds) : ResultCode → SizeBounds
  | .success => bounds
  | _ => messageBounds

/-- What the bytes after a code are. -/
def answer : ResultCode → Bytes → Except RpcError Bytes
  | .success, payload => .ok payload
  | code, message => .error (.errorResponse code (Utf8.decodeLossy message))

theorem readAfterCode_eq (compression : Compression) (bounds : SizeBounds) (code : ResultCode) :
    readAfterCode compression bounds code = (readFrame compression (inForce bounds code) >>=
      fun bytes => Reader.ofExcept (answer code bytes)) := by
  cases code with
  | success => exact (bind_pure _).symm
  | invalidRequest => rfl
  | serverError => rfl

/-- After a code, whatever it is, a frame is read with no more than its length allows. -/
theorem rationed_readAfterCode (compression : Compression) (bounds : SizeBounds)
    (code : ResultCode) :
    Rationed compression (inForce bounds code) (readAfterCode compression bounds code) := by
  refine ⟨fun declared => readBody compression (inForce bounds code) declared >>=
    fun bytes => Reader.ofExcept (answer code bytes), ?_, ?_⟩
  · rw [readAfterCode_eq, readFrame_eq, bind_assoc]
  · intro declared
    exact (rations_readBody ..).bind_ofExcept (answer code)

/-- What may come of a chunk at the front of the source `s`, which becomes `s'`. -/
inductive ChunkGuarded (compression : Compression) (bounds : SizeBounds) (s : Source) :
    Except (Halt RpcError) Bytes → Source → Prop
  /-- There is none. -/
  | missing {e : RpcError} {s' : Source} : s.remaining = [] → s.After [] s' →
    ChunkGuarded compression bounds s (.error (.failed e)) s'
  /-- Its code is none that is known, and nothing after it is taken. -/
  | unknown {b : UInt8} {rest : Bytes} {s' : Source} : s.remaining = b :: rest →
    ResultCode.ofByte? b = none → s.After [b] s' →
    ChunkGuarded compression bounds s (.error (.failed (.violation (.unknownResultCode b)))) s'
  /-- There is a frame after its code. -/
  | known {code : ResultCode} {rest : Bytes} {result : Except (Halt RpcError) Bytes}
    {s₁ s' : Source} : s.remaining = code.toByte :: rest → s.After [code.toByte] s₁ →
    Guarded compression (inForce bounds code) s₁ result s' →
    ChunkGuarded compression bounds s
      (result.bind fun bytes => (answer code bytes).mapError .failed) s'

/-- What may come of a chunk, by its code and its declared length. -/
theorem guarded_readChunk (compression : Compression) (bounds : SizeBounds) {s : Source}
    (hanswers : s.ending ≠ .silent) :
    ChunkGuarded compression bounds s (readChunk compression bounds s).1
      (readChunk compression bounds s).2 := by
  cases hs : s.remaining with
  | nil =>
    obtain ⟨s', hread, hafter⟩ := starves_nil compression bounds s hs
    have hfails : ∃ e, atEnd s.ending = .failed e := exists_of_halt hanswers
    obtain ⟨e, he⟩ := hfails
    rw [hread, he]
    exact .missing hs hafter
  | cons b rest =>
    obtain ⟨s₁, hcode, hafter⟩ := takes_code b s rest hs
    have opened : readChunk compression bounds s =
        readAfterByte compression bounds (some b) s₁ := by
      rw [readChunk_eq, Reader.bind_apply, hcode]
      rfl
    rw [opened, readAfterByte]
    cases hb : ResultCode.ofByte? b with
    | none => exact .unknown hs hb hafter
    | some code =>
      obtain rfl := toByte_of_ofByte? hb
      have hanswers₁ : s₁.ending ≠ .silent := hafter.ending ▸ hanswers
      have guarded := guarded_readFrame compression (inForce bounds code) hanswers₁
      have concluded : readAfterCode compression bounds code s₁ =
          ((readFrame compression (inForce bounds code) s₁).1.bind fun bytes =>
            (answer code bytes).mapError .failed,
            (readFrame compression (inForce bounds code) s₁).2) := by
        rw [readAfterCode_eq, Reader.bind_apply]
        rcases readFrame compression (inForce bounds code) s₁ with ⟨halt | bytes, s'⟩
        · rfl
        · cases code <;> rfl
      dsimp only
      rw [concluded]
      exact .known hs hafter guarded

/-- Requests and chunks of a response are read with a guard against what their lengths may be, and
with every read within what is left of what they allow. So the reader comes to an end whatever it is
sent, unless the other side falls silent. -/
theorem readers_guarded (compression : Compression) (bounds : SizeBounds) {s : Source}
    (hanswers : s.ending ≠ .silent) :
    Guarded compression bounds s (readRequest compression bounds s).1
        (readRequest compression bounds s).2 ∧
      Rationed compression bounds (readRequest compression bounds) ∧
      ChunkGuarded compression bounds s (readChunk compression bounds s).1
        (readChunk compression bounds s).2 ∧
      ∀ code, Rationed compression (inForce bounds code) (readAfterCode compression bounds code) :=
  ⟨guarded_readFrame compression bounds hanswers, rationed_readFrame compression bounds,
    guarded_readChunk compression bounds hanswers, rationed_readAfterCode compression bounds⟩

/-- Where at most 256 bytes are allowed, 300 are announced: the two bytes of the length are taken, and
nothing after them. -/
theorem readers_guarded_announced :
    let s := Source.new [[0xac], [2, 0x61, 0x62]] .closed 0
    s.ending ≠ .silent ∧
      (readRequest .snappy messageBounds s).1 =
        .error (.failed (outOfBounds 300 messageBounds)) ∧
      s.After [0xac, 2] (readRequest .snappy messageBounds s).2 :=
  ⟨by decide, (readers_guarded .snappy messageBounds (by decide)).1.refused 300 2 rfl rfl⟩

end PeerCensus.Rpc
