import PeerCensus.Proofs.Rpc.Response

/-!
# How the bytes of a stream are split

The pieces in which bytes arrive are up to the transport. Two sources are alike when the same bytes
come from them and they end in the same way. A reader that on any bytes either takes some of them or
wants more cannot tell sources that are alike from each other: it comes to the same and takes the same
bytes of both. So do the readers of varints, requests and chunks, and so does a call, which goes on
after each chunk with sources that are still alike.

Results:
* `Reader.steady_of_settles`, `Reader.Decides.steady`: which readers cannot tell alike sources apart.
* `steady_readResponses`: nor can the reader of a response.
* `reading_alike`: varints, requests, chunks and calls do not depend on how bytes are split.
-/

namespace PeerCensus

/-- The same bytes come from both sources, in whatever pieces and after whatever wait, and the sources
end in the same way. -/
structure Source.Alike (s t : Source) : Prop where
  remaining : s.remaining = t.remaining
  ending : s.ending = t.ending

/-- What came of reading from `s` and of reading from `t` is the same, and so are the bytes that were
taken. -/
structure SameReading (s t : Source) (x y : α × Source) : Prop where
  result : x.1 = y.1
  taken : ∃ taken, s.After taken x.2 ∧ t.After taken y.2

variable {s t s₁ t₁ : Source} {taken : Bytes}

/-- Sources that are alike are alike still when the same bytes have been taken of both. -/
theorem Source.Alike.after (h : s.Alike t) (hs : s.After taken s₁) (ht : t.After taken t₁) :
    s₁.Alike t₁ where
  remaining := (ht.rest_eq (h.remaining.symm.trans hs.remaining)).symm
  ending := hs.ending.trans (h.ending.trans ht.ending.symm)

/-- Going on in the same way after the same bytes comes to the same. -/
theorem SameReading.after {x y : α × Source} (hs : s.After taken s₁) (ht : t.After taken t₁)
    (h : SameReading s₁ t₁ x y) : SameReading s t x y := by
  obtain ⟨hresult, more, hx, hy⟩ := h
  exact ⟨hresult, taken ++ more, hs.trans hx, ht.trans hy⟩

namespace Reader

variable {r : Reader ε α}

/-- Whether the reader cannot tell sources that are alike from each other. -/
def Steady (r : Reader ε α) : Prop :=
  ∀ s t : Source, s.Alike t → SameReading s t (r s) (r t)

/-- A reader that on any bytes either takes some of them or starves is steady. -/
theorem steady_of_settles
    (h : ∀ bytes, (∃ taken result, taken <+: bytes ∧ r.Takes taken result) ∨
      ∃ halt, r.Starves bytes halt) : r.Steady := by
  intro s t halike
  rcases h s.remaining with ⟨taken, result, ⟨rest, hrest⟩, htakes⟩ | ⟨halt, hstarves⟩
  · obtain ⟨s', hs, hafter⟩ := htakes s rest hrest.symm
    obtain ⟨t', ht, hafter'⟩ := htakes t rest (halike.remaining.symm.trans hrest.symm)
    rw [hs, ht]
    exact ⟨rfl, taken, hafter, hafter'⟩
  · obtain ⟨s', hs, hafter⟩ := hstarves s rfl
    obtain ⟨t', ht, hafter'⟩ := hstarves t halike.remaining.symm
    rw [hs, ht, halike.ending]
    exact ⟨rfl, s.remaining, hafter, hafter'⟩

theorem Decides.steady {spec : Bytes → Except ε α → Prop} {halt : Ending → Halt ε}
    (h : r.Decides spec halt) : r.Steady := by
  refine steady_of_settles fun bytes => ?_
  rcases h bytes with ⟨taken, result, hp, htakes, -⟩ | hstarves
  · exact .inl ⟨taken, result, hp, htakes⟩
  · exact .inr ⟨halt, hstarves⟩

end Reader

/-- The reader of varints is steady, although what it makes of the end of a stream depends on the bytes
before that. -/
theorem Varint.steady_read : Varint.read.Steady := by
  refine Reader.steady_of_settles fun bytes => ?_
  cases h : Varint.decode bytes with
  | ok found =>
    obtain ⟨v, n⟩ := found
    exact .inl ⟨bytes.take n, _, List.take_prefix .., Varint.takes_read (Varint.decode_take h)⟩
  | error fault =>
    cases fault with
    | truncated => exact .inr ⟨_, Varint.starves_read h⟩
    | overflow =>
      obtain ⟨taken, hp, -, htakes⟩ := Varint.takes_read_overflow h
      exact .inl ⟨taken, _, hp, htakes⟩

namespace Rpc

/-- The reader of a response is steady: every chunk is taken of both sources alike, and what is left of
them is alike. -/
theorem steady_readResponses (Resp : Type) [Ssz Resp] (compression : Compression)
    (bounds : SizeBounds) (n : Nat) (started : Bool) :
    (Method.readResponses compression bounds n started : Reader RpcError (List Resp)).Steady := by
  induction n generalizing started with
  | zero => exact fun s t _ => ⟨rfl, [], .refl s, .refl t⟩
  | succ n ih =>
    intro s t halike
    have hchunk := (decides_readChunk compression bounds).steady s t halike
    rw [readResponses_succ, readResponses_succ]
    generalize readChunk compression bounds s = x at hchunk ⊢
    generalize readChunk compression bounds t = y at hchunk ⊢
    obtain ⟨result, s₁⟩ := x
    obtain ⟨result', t₁⟩ := y
    obtain ⟨rfl : result = result', taken, hs, ht⟩ := hchunk
    cases result with
    | error halt =>
      -- whether it counts as the end of the response depends on the error alone
      exact ⟨rfl, taken, hs, ht⟩
    | ok payload =>
      dsimp only
      cases Ssz.decode Resp payload with
      | error e => exact ⟨rfl, taken, hs, ht⟩
      | ok response =>
        have hrest := (ih true s₁ t₁ (halike.after hs ht)).after hs ht
        exact ⟨congrArg (Except.map ([response] ++ ·)) hrest.result, hrest.taken⟩

/-- A call comes to the same over sources that are alike, takes the same bytes of them, and sends the
same. -/
theorem Method.call_alike {Req Resp : Type} [Ssz Req] [Ssz Resp] (m : Method Req Resp)
    (request : Req) (sink : Sink) (h : s.Alike t) :
    SameReading s t
        ((m.call request ⟨s, sink⟩).1, (m.call request ⟨s, sink⟩).2.source)
        ((m.call request ⟨t, sink⟩).1, (m.call request ⟨t, sink⟩).2.source) ∧
      (m.call request ⟨s, sink⟩).2.sink = (m.call request ⟨t, sink⟩).2.sink := by
  rw [call, call]
  rcases writeRequest m.compression m.requestBounds (Ssz.encode request) sink with ⟨e | ⟨⟩, sink'⟩
  · exact ⟨⟨rfl, [], .refl s, .refl t⟩, rfl⟩
  · exact ⟨steady_readResponses Resp m.compression m.responseBounds m.maxChunks false s t h, rfl⟩

/-- Varints, requests and chunks of a response are read the same from sources that are alike, and a
call comes to the same over them: the results are equal, and so are the bytes that are taken. -/
theorem reading_alike {Req Resp : Type} [Ssz Req] [Ssz Resp] (compression : Compression)
    (bounds : SizeBounds) (m : Method Req Resp) (request : Req) (sink : Sink) (h : s.Alike t) :
    SameReading s t (Varint.read s) (Varint.read t) ∧
      SameReading s t (readRequest compression bounds s) (readRequest compression bounds t) ∧
      SameReading s t (readChunk compression bounds s) (readChunk compression bounds t) ∧
      SameReading s t
        ((m.call request ⟨s, sink⟩).1, (m.call request ⟨s, sink⟩).2.source)
        ((m.call request ⟨t, sink⟩).1, (m.call request ⟨t, sink⟩).2.source) ∧
      (m.call request ⟨s, sink⟩).2.sink = (m.call request ⟨t, sink⟩).2.sink :=
  ⟨Varint.steady_read s t h, (decides_readFrame compression bounds).steady s t h,
    (decides_readChunk compression bounds).steady s t h, m.call_alike request sink h⟩

/-- A chunk in two pieces is read like the same chunk in four that come later, one of them empty. -/
theorem reading_alike_pieces :
    let s := Source.new [[0, 4, 0xbb], [0xa4, 0xda, 0x96]] .closed 0
    let t := Source.new [[0], [], [4, 0xbb, 0xa4, 0xda], [0x96]] .closed 7
    let m := Method.fixed (FixedBytes 4) (FixedBytes 4) "digest" 2
    s.Alike t ∧
      SameReading s t (readChunk .plain (.exact 4) s) (readChunk .plain (.exact 4) t) ∧
      (m.call default ⟨s, .unlimited⟩).1 = (m.call default ⟨t, .unlimited⟩).1 := by
  intro s t m
  have h : s.Alike t := ⟨rfl, rfl⟩
  obtain ⟨-, -, hchunk, hcall, -⟩ := reading_alike .plain (.exact 4) m default .unlimited h
  exact ⟨h, hchunk, hcall.result⟩

end Rpc

end PeerCensus
