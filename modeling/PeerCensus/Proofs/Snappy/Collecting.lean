import PeerCensus.Proofs.Snappy.Framing

/-!
# What a collector takes

A collector is fed a header, a body, the next header and so on, each time exactly as many bytes as
it wants. The frames of a payload are exactly the bytes that make it complete with that payload, so
it stops at the right byte without being told where the frames end.

Results:
* `Collector.isFraming_of_fed`: what a complete collector has taken are the frames of its payload.
* `Collector.fed_of_isFraming`: the frames of a payload make a collector complete.
-/

namespace PeerCensus.Snappy.Collector

/-- The collector `c` becomes `c'` by taking the pieces, each of the size that is wanted. -/
inductive Fed : Collector → List Bytes → Collector → Prop
  | nil (c : Collector) : Fed c [] c
  | cons {c next c' : Collector} {piece : Bytes} {pieces : List Bytes} :
    c.wants = some piece.length → c.feed piece = .ok next → Fed next pieces c' →
      Fed c (piece :: pieces) c'

variable {c c' next : Collector}

/-! ## Taking a chunk -/

theorem takeHeader_eq_ok {header : Bytes} (h : c.takeHeader header = .ok next) :
    ∃ kind l0 l1 l2, header = [kind, l0, l1, l2] ∧ isReserved kind = false ∧
      (c.parts = [] → kind = identifierKind) ∧
      next = { c with
        phase := .body kind (Bytes.toNatLE [l0, l1, l2])
        parts := header :: c.parts } := by
  rw [takeHeader.eq_def] at h
  split at h
  · rename_i kind l0 l1 l2
    split at h
    · cases h
    · split at h
      · cases h
      · rename_i hreserved hfirst
        cases h
        exact ⟨kind, l0, l1, l2, rfl, by simpa using hreserved, by simpa using hfirst, rfl⟩
  · cases h

theorem takeBody_eq_ok {kind : UInt8} {body : Bytes} (h : c.takeBody kind body = .ok next) :
    ∃ length, dataLength kind body = .ok length ∧
      next = { c with
        phase := .header
        parts := body :: c.parts
        decoded := c.decoded + length } := by
  rw [takeBody] at h
  split at h
  · cases h
  · rename_i length hlength
    split at h
    · cases h
    · split at h
      · cases h
      · cases h
        exact ⟨length, hlength, rfl⟩

theorem wants_eq_some_of_header {n : Nat} (hp : c.phase = .header) (h : c.wants = some n) :
    c.decoded < c.declared ∧ n = headerSize := by
  simp only [wants, hp] at h
  split at h
  · cases h
  · cases h
    exact ⟨by omega, rfl⟩

theorem eq_of_wants_eq_none (h : c.wants = none) : c.phase = .header ∧ c.declared ≤ c.decoded := by
  rw [wants] at h
  split at h
  · rename_i hp
    split at h
    · exact ⟨hp, by assumption⟩
    · cases h
  · cases h

/-! ## What was taken is a row of chunks -/

/-- What is known of the chunks that a collector took on the way to `c'`. -/
structure Took (c : Collector) (bytes : Bytes) (chunks : List Chunk) (c' : Collector) : Prop where
  bytes_eq : bytes = chunks.flatMap Chunk.encode
  length_body_lt : ∀ k ∈ chunks, k.body.length < 2 ^ 24
  head : c.parts = [] → ∀ k ∈ chunks.head?, k.kind = identifierKind
  framed : c'.framed = c.framed ++ bytes
  declared : c'.declared = c.declared
  /-- If the chunks hold data at all, they hold as much as was counted, and no more chunks than
  needed. -/
  fills : c'.declared ≤ c'.decoded → ∀ parts, chunks.mapM Chunk.data? = some parts →
    c'.decoded = c.decoded + parts.flatten.length ∧ Fills chunks parts.flatten

theorem Took.nil (c : Collector) : Took c [] [] c where
  bytes_eq := rfl
  length_body_lt := by simp
  head := by simp
  framed := (List.append_nil _).symm
  declared := rfl
  fills := by
    rintro - parts hparts
    cases hparts
    exact ⟨rfl, .nil⟩

theorem Took.cons {chunk : Chunk} {bytes : Bytes} {chunks : List Chunk} {length : Nat}
    (h : Took next bytes chunks c') (hroom : c.decoded < c.declared)
    (hsize : chunk.body.length < 2 ^ 24)
    (hfirst : c.parts = [] → chunk.kind = identifierKind)
    (hlength : dataLength chunk.kind chunk.body = .ok length)
    (hframed : next.framed = c.framed ++ chunk.encode) (hdeclared : next.declared = c.declared)
    (hdecoded : next.decoded = c.decoded + length) :
    Took c (chunk.encode ++ bytes) (chunk :: chunks) c' where
  bytes_eq := by rw [h.bytes_eq, List.flatMap_cons]
  length_body_lt := List.forall_mem_cons.2 ⟨hsize, h.length_body_lt⟩
  head hnew k hk := by
    cases hk
    exact hfirst hnew
  framed := by rw [h.framed, hframed, List.append_assoc]
  declared := h.declared.trans hdeclared
  fills := by
    intro hfull parts hparts
    rw [List.mapM_cons] at hparts
    obtain ⟨part, hpart, hparts⟩ := Option.bind_eq_some_iff.1 hparts
    obtain ⟨more, hmore, hparts⟩ := Option.bind_eq_some_iff.1 hparts
    cases hparts
    obtain ⟨hdecoded', hfills⟩ := h.fills hfull more hmore
    obtain ⟨-, hsame, -⟩ := Chunk.dataLength_eq hpart
    obtain rfl : length = part.length := Except.ok.inj (hlength.symm.trans hsame)
    have total : c'.decoded = c.decoded + (part ++ more.flatten).length := by
      rw [hdecoded', hdecoded, List.length_append, Nat.add_assoc]
    refine ⟨total, .cons hpart ?_ hfills⟩
    -- before this chunk something was missing, and after all of them nothing is
    intro hempty
    have := h.declared.trans hdeclared
    rw [hempty, List.length_nil] at total
    omega

/-- A complete collector was fed with chunks; one that waits for a body, with that body first. -/
theorem Fed.took {pieces : List Bytes} (h : Fed c pieces c') (hw : c'.wants = none) :
    match c.phase with
    | .header => ∃ chunks, Took c pieces.flatten chunks c'
    | .body kind length => ∃ body bytes next chunks, pieces.flatten = body ++ bytes ∧
        body.length = length ∧ c.takeBody kind body = .ok next ∧ Took next bytes chunks c' := by
  induction h with
  | nil c =>
    simp only [(eq_of_wants_eq_none hw).1]
    exact ⟨[], .nil c⟩
  | @cons c next c' piece pieces hwants hfeed _ ih =>
    have ih := ih hw
    cases hp : c.phase with
    | header =>
      simp only [feed, hp] at hfeed
      obtain ⟨kind, l0, l1, l2, rfl, -, hfirst, rfl⟩ := takeHeader_eq_ok hfeed
      obtain ⟨body, bytes, next, chunks, hflat, hlength, hbody, htook⟩ := ih
      obtain ⟨length, hdata, rfl⟩ := takeBody_eq_ok hbody
      obtain ⟨hroom, -⟩ := wants_eq_some_of_header hp hwants
      have encoded : (⟨kind, body⟩ : Chunk).encode = [kind, l0, l1, l2] ++ body := by
        rw [Chunk.encode_eq, hlength, show 3 = [l0, l1, l2].length from rfl, Bytes.ofNatLE_toNatLE]
      refine ⟨⟨kind, body⟩ :: chunks, ?_⟩
      rw [List.flatten_cons, hflat, ← List.append_assoc, ← encoded]
      refine htook.cons hroom ?_ hfirst hdata ?_ rfl rfl
      · rw [hlength]
        exact Nat.lt_of_lt_of_eq (Bytes.toNatLE_lt [l0, l1, l2]) (by simp)
      · simp [framed, encoded]
    | body kind length =>
      have hnext := phase_feed_of_body hp hfeed
      simp only [feed, hp] at hfeed
      split at hfeed
      · rename_i hlength
        rw [hnext] at ih
        obtain ⟨chunks, htook⟩ := ih
        exact ⟨piece, pieces.flatten, next, chunks, List.flatten_cons, hlength, hfeed, htook⟩
      · cases hfeed

/-- What a complete collector has taken are the frames of its payload. -/
theorem isFraming_of_fed {declared : Nat} {pieces : List Bytes} {raw : Bytes}
    (h : Fed (new declared) pieces c') (hw : c'.wants = none) (hraw : c'.finish = .ok raw) :
    IsFraming pieces.flatten raw ∧ raw.length = declared := by
  obtain ⟨chunks, htook⟩ := h.took hw
  have taken : c'.framed = chunks.flatMap Chunk.encode := by
    rw [htook.framed, htook.bytes_eq]
    rfl
  rw [finish, taken, decode_flatMap_encode htook.length_body_lt (htook.head rfl)] at hraw
  cases hparts : chunks.mapM Chunk.data? with
  | none =>
    rw [hparts] at hraw
    cases hraw
  | some parts =>
    rw [hparts, Option.map_some] at hraw
    split at hraw
    · cases hraw
    · rename_i found hfound
      cases hfound
      split at hraw
      · rename_i hlength
        cases hraw
        have := htook.fills (eq_of_wants_eq_none hw).2 parts hparts
        exact ⟨⟨chunks, htook.bytes_eq, htook.head rfl, this.2⟩, hlength.trans htook.declared⟩
      · cases hraw

/-! ## A row of chunks is taken -/

/-- A collector takes the header and the body of a chunk that has a place in the stream. -/
theorem fed_chunk {chunk : Chunk} {part : Bytes} (hp : c.phase = .header)
    (hroom : c.decoded < c.declared) (hfirst : c.parts = [] → chunk.kind = identifierKind)
    (hpart : chunk.data? = some part) (hfits : c.decoded + part.length ≤ c.declared) :
    ∃ next header, header ++ chunk.body = chunk.encode ∧ next.phase = .header ∧
      next.declared = c.declared ∧ next.decoded = c.decoded + part.length ∧ next.parts ≠ [] ∧
      next.framed = c.framed ++ chunk.encode ∧
      ∀ pieces c', Fed next pieces c' → Fed c (header :: chunk.body :: pieces) c' := by
  obtain ⟨hreserved, hlength, hsize⟩ := Chunk.dataLength_eq hpart
  have small := Chunk.length_body_lt hpart
  let header := chunk.kind :: Bytes.ofNatLE 3 chunk.body.length
  let opened : Collector := { c with
    phase := .body chunk.kind chunk.body.length
    parts := header :: c.parts }
  have first : ¬ (c.parts = [] ∧ chunk.kind ≠ identifierKind) := fun h => h.2 (hfirst h.1)
  have size : Bytes.toNatLE (Bytes.ofNatLE 3 chunk.body.length) = chunk.body.length :=
    Bytes.toNatLE_ofNatLE_of_lt small
  have opens : c.feed header = .ok opened := by
    simp only [Bytes.ofNatLE] at size
    simp only [feed, hp, header, Bytes.ofNatLE, takeHeader, hreserved, Bool.false_eq_true, if_false,
      if_neg first, size, opened]
  have closes : opened.feed chunk.body = .ok { opened with
      phase := .header
      parts := chunk.body :: opened.parts
      decoded := c.decoded + part.length } := by
    simp only [feed, opened, if_true, takeBody, hlength]
    rw [if_neg (by omega), if_neg (by omega)]
  refine ⟨_, header, rfl, ?_, ?_, ?_, ?_, ?_,
    fun pieces c' h => .cons ?_ opens (.cons rfl closes h)⟩
  · rfl
  · rfl
  · rfl
  · exact List.cons_ne_nil _ _
  · simp [framed, opened, header, Chunk.encode_eq]
  · simp only [wants, hp, if_neg (Nat.not_le.2 hroom), header, List.length_cons,
      Bytes.length_ofNatLE, headerSize]

theorem fed_of_fills {chunks : List Chunk} {raw : Bytes} (h : Fills chunks raw)
    (hp : c.phase = .header) (hdeclared : c.declared = c.decoded + raw.length)
    (hhead : c.parts = [] → ∀ k ∈ chunks.head?, k.kind = identifierKind) :
    ∃ pieces c', pieces.flatten = chunks.flatMap Chunk.encode ∧ Fed c pieces c' ∧
      c'.wants = none ∧ c'.declared = c.declared ∧
      c'.framed = c.framed ++ chunks.flatMap Chunk.encode := by
  induction h generalizing c with
  | nil =>
    refine ⟨[], c, rfl, .nil c, ?_, rfl, (List.append_nil _).symm⟩
    rw [List.length_nil, Nat.add_zero] at hdeclared
    simp only [wants, hp, if_pos (Nat.le_of_eq hdeclared)]
  | @cons chunk chunks part raw hpart hmissing _ ih =>
    have positive := List.length_pos_iff.2 hmissing
    rw [List.length_append] at hdeclared positive
    obtain ⟨next, header, hencode, hphase, hnext, hdecoded, hparts, hframed, hfed⟩ :=
      fed_chunk hp (by omega) (fun hnew => hhead hnew chunk rfl) hpart (by omega)
    obtain ⟨pieces, c', hflat, hfed', hw, hdeclared', hframed'⟩ :=
      ih (c := next) hphase (by omega) (fun hnew => absurd hnew hparts)
    refine ⟨header :: chunk.body :: pieces, c', ?_, hfed _ _ hfed', hw, hdeclared'.trans hnext, ?_⟩
    · rw [List.flatten_cons, List.flatten_cons, ← List.append_assoc, hencode, hflat,
        List.flatMap_cons]
    · rw [hframed', hframed, List.flatMap_cons, List.append_assoc]

/-- The frames of a payload make a collector complete. -/
theorem fed_of_isFraming {bytes raw : Bytes} (h : IsFraming bytes raw) :
    ∃ pieces c', pieces.flatten = bytes ∧ Fed (new raw.length) pieces c' ∧ c'.wants = none ∧
      c'.finish = .ok raw := by
  obtain ⟨chunks, hbytes, hhead, hfills⟩ := id h
  obtain ⟨pieces, c', hflat, hfed, hw, hdeclared, hframed⟩ :=
    fed_of_fills (c := new raw.length) hfills rfl (Nat.zero_add _).symm fun _ => hhead
  refine ⟨pieces, c', hflat.trans hbytes.symm, hfed, hw, ?_⟩
  have decoded : decode c'.framed = some raw := by
    rw [hframed, ← hbytes]
    exact decode_of_isFraming h
  rw [finish, decoded]
  exact if_pos hdeclared.symm

end PeerCensus.Snappy.Collector
