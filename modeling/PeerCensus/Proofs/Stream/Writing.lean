import PeerCensus.Stream.Sink

/-!
# What a sink takes

A sink is offered bytes until it has taken all of them. It may take them in pieces of any sizes, and
this makes no difference: up to its limit it takes them in order, and none beyond its limit, where it
fails or never answers.

Results:
* `Sink.offerAll_eq`: the pieces in which bytes are taken make no difference.
* `Sink.written_send`: what comes of writing, flushing and closing.
-/

namespace PeerCensus.Sink

/-! ## Pieces -/

/-- Offers bytes to a sink, which takes at most `most` of them, and tells how many it takes. -/
def offer (most : Nat) (bytes : Bytes) (s : Sink) : Except (Halt Fault) Nat × Sink :=
  let taking (n : Nat) := (.ok n, { s with sent := s.sent ++ bytes.take n })
  match s.limit with
  | none => taking (min most bytes.length)
  | some (limit, halt) =>
    let room := limit - s.sent.length
    if room = 0 then (.error halt, s) else taking (min (min most room) bytes.length)

/-- Offers bytes until all of them are taken: at most `sizes 0 + 1` at first, and so on. -/
def offerAll (sizes : Nat → Nat) (bytes : Bytes) (s : Sink) : Except (Halt Fault) Unit × Sink :=
  match bytes with
  | [] => (.ok (), s)
  | b :: rest =>
    match s.offer (sizes 0 + 1) (b :: rest) with
    | (.error halt, s) => (.error halt, s)
    -- a sink that answers takes a byte at least
    | (.ok n, s) => s.offerAll (fun i => sizes (i + 1)) (rest.drop (n - 1))
termination_by bytes.length
decreasing_by
  rw [List.length_drop, List.length_cons]
  omega

theorem drop_cons_of_pos {n : Nat} (h : 0 < n) (a : α) (l : List α) :
    l.drop (n - 1) = (a :: l).drop n := by
  obtain ⟨k, rfl⟩ : ∃ k, n = k + 1 := ⟨n - 1, by omega⟩
  rfl

theorem writeAll_of_limit {s : Sink} {limit : Nat} {halt : Halt Fault}
    (h : s.limit = some (limit, halt)) (bytes : Bytes) :
    s.writeAll bytes =
      (if bytes.length ≤ limit - s.sent.length then .ok () else .error halt,
        { s with sent := s.sent ++ bytes.take (limit - s.sent.length) }) := by
  simp only [writeAll, h]
  split <;> rfl

theorem writeAll_nil (s : Sink) : s.writeAll [] = (.ok (), s) := by
  rw [writeAll]
  split <;> simp

/-- Bytes of which some have been taken are written on as they would have been from the start. -/
theorem writeAll_taken {s : Sink} {bytes : Bytes} {n : Nat}
    (h : ∀ limit halt, s.limit = some (limit, halt) → n ≤ limit - s.sent.length)
    (hn : n ≤ bytes.length) :
    writeAll (bytes.drop n) { s with sent := s.sent ++ bytes.take n } = s.writeAll bytes := by
  obtain ⟨sent, limit, failsFlushing, closingHalt, closed, delay, waited⟩ := s
  cases limit with
  | none => simp [writeAll, List.append_assoc]
  | some found =>
    obtain ⟨limit, halt⟩ := found
    have hroom : n ≤ limit - sent.length := h limit halt rfl
    have room : limit - (sent ++ bytes.take n).length = limit - sent.length - n := by
      rw [List.length_append, List.length_take_of_le hn]
      omega
    have taken : sent ++ bytes.take n ++ (bytes.drop n).take (limit - sent.length - n) =
        sent ++ bytes.take (limit - sent.length) := by
      rw [List.append_assoc, ← List.take_add, Nat.add_sub_cancel' hroom]
    have fits : (bytes.drop n).length ≤ limit - sent.length - n ↔
        bytes.length ≤ limit - sent.length := by
      rw [List.length_drop]
      omega
    simp only [writeAll, room, taken, fits]

/-- A sink that does not take a byte has reached its limit. -/
theorem limit_of_offer_error {s s' : Sink} {most : Nat} {bytes : Bytes} {halt : Halt Fault}
    (h : s.offer most bytes = (.error halt, s')) :
    s' = s ∧ ∃ limit, s.limit = some (limit, halt) ∧ limit - s.sent.length = 0 := by
  rw [offer] at h
  split at h
  · cases h
  · rename_i limit halt' hlimit
    dsimp only at h
    split at h
    · rename_i hroom
      cases h
      exact ⟨rfl, limit, hlimit, hroom⟩
    · cases h

/-- A sink takes bytes from the front, one at least if it takes some, and none beyond its limit. -/
theorem taken_of_offer_ok {s s' : Sink} {most n : Nat} {bytes : Bytes} (hmost : 0 < most)
    (hbytes : 0 < bytes.length) (h : s.offer most bytes = (.ok n, s')) :
    s' = { s with sent := s.sent ++ bytes.take n } ∧ 0 < n ∧ n ≤ bytes.length ∧
      ∀ limit halt, s.limit = some (limit, halt) → n ≤ limit - s.sent.length := by
  rw [offer] at h
  split at h
  · rename_i hlimit
    cases h
    refine ⟨rfl, by omega, by omega, fun limit halt hsome => ?_⟩
    rw [hlimit] at hsome
    cases hsome
  · rename_i limit halt hlimit
    dsimp only at h
    split at h
    · cases h
    · rename_i hroom
      cases h
      refine ⟨rfl, by omega, by omega, fun limit' halt' hsome => ?_⟩
      rw [hlimit] at hsome
      cases hsome
      omega

/-- The pieces in which bytes are taken make no difference. -/
theorem offerAll_eq (sizes : Nat → Nat) (bytes : Bytes) (s : Sink) :
    s.offerAll sizes bytes = s.writeAll bytes := by
  induction sizes, bytes, s using offerAll.induct with
  | case1 sizes s => rw [offerAll, writeAll_nil]
  | case2 sizes s b rest halt s' hoffer =>
    obtain ⟨rfl, limit, hlimit, hroom⟩ := limit_of_offer_error hoffer
    rw [offerAll, hoffer, writeAll_of_limit hlimit, hroom]
    simp
  | case3 sizes s b rest n s' hoffer ih =>
    have some_bytes : 0 < (b :: rest).length := Nat.succ_pos _
    obtain ⟨rfl, hpos, hle, hroom⟩ := taken_of_offer_ok (Nat.succ_pos _) some_bytes hoffer
    rw [offerAll, hoffer]
    dsimp only
    rw [ih, drop_cons_of_pos hpos b rest, writeAll_taken hroom hle]

/-! ## Writing, flushing and closing -/

/-- Writes bytes, flushes them, and closes the sink if it is to be closed. -/
def send (closes : Bool) (bytes : Bytes) (s : Sink) : Except (Halt Fault) Unit × Sink :=
  match s.writeAll bytes with
  | (.error halt, s) => (.error halt, s)
  | (.ok (), s) =>
    match s.flush with
    | (.error halt, s) => (.error halt, s)
    | (.ok (), s) => if closes then s.close else (.ok (), s)

/-- Whether a sink takes all of `bytes` and flushes them. -/
def Takes (s : Sink) (bytes : Bytes) : Prop :=
  ∀ limit halt, s.limit = some (limit, halt) → bytes.length ≤ limit - s.sent.length ∧
    (s.failsFlushing = true → bytes.length < limit - s.sent.length)

/-- What may come of writing bytes to a sink, flushing them, and closing it if it is to be closed. -/
inductive Written (s : Sink) (closes : Bool) (bytes : Bytes) : Except (Halt Fault) Unit → Sink → Prop
  /-- The limit comes before the last byte. -/
  | cut {limit : Nat} {halt : Halt Fault} : s.limit = some (limit, halt) →
    limit - s.sent.length < bytes.length → Written s closes bytes (.error halt)
      { s with sent := s.sent ++ bytes.take (limit - s.sent.length) }
  /-- The limit comes with the last byte and shows when the bytes are flushed. -/
  | unflushed {limit : Nat} {halt : Halt Fault} : s.limit = some (limit, halt) →
    s.failsFlushing = true → limit - s.sent.length = bytes.length →
    Written s closes bytes (.error halt) { s with sent := s.sent ++ bytes }
  | unclosed {halt : Halt Fault} : s.Takes bytes → closes = true → s.closingHalt = some halt →
    Written s closes bytes (.error halt) { s with sent := s.sent ++ bytes }
  | done : s.Takes bytes → (closes = true → s.closingHalt = none) →
    Written s closes bytes (.ok ()) { s with sent := s.sent ++ bytes, closed := closes || s.closed }

theorem takes_of_unlimited {s : Sink} (h : s.limit = none) (bytes : Bytes) : s.Takes bytes :=
  fun _ _ hsome => nomatch h.symm.trans hsome

/-- When all bytes have been taken and flushed, nothing but closing is left. -/
theorem written_of_takes {s : Sink} {closes : Bool} {bytes : Bytes} (h : s.Takes bytes)
    {taken : Sink} (htaken : taken = { s with sent := s.sent ++ bytes }) :
    s.Written closes bytes (if closes then taken.close else (.ok (), taken)).1
      (if closes then taken.close else (.ok (), taken)).2 := by
  subst htaken
  cases closes with
  | false => exact .done h nofun
  | true =>
    obtain ⟨sent, limit, failsFlushing, closingHalt, closed, delay, waited⟩ := s
    cases closingHalt with
    | some halt => exact .unclosed h rfl rfl
    | none => exact .done h fun _ => rfl

theorem written_send (s : Sink) (closes : Bool) (bytes : Bytes) :
    s.Written closes bytes (s.send closes bytes).1 (s.send closes bytes).2 := by
  obtain ⟨sent, limit, failsFlushing, closingHalt, closed, delay, waited⟩ := s
  cases limit with
  | none => exact written_of_takes (takes_of_unlimited rfl bytes) rfl
  | some found =>
    obtain ⟨limit, halt⟩ := found
    rw [send, writeAll_of_limit rfl]
    by_cases hfits : bytes.length ≤ limit - sent.length
    · rw [if_pos hfits, List.take_of_length_le hfits]
      simp only [flush, List.length_append]
      by_cases hfails : failsFlushing = true ∧ limit ≤ sent.length + bytes.length
      · rw [if_pos (by simpa using hfails)]
        have exhausted : limit - sent.length = bytes.length := by omega
        exact .unflushed rfl hfails.1 exhausted
      · rw [if_neg (by simpa using hfails)]
        refine written_of_takes (fun limit' halt' hlimit => ?_) rfl
        cases hlimit
        refine ⟨hfits, fun hflush => ?_⟩
        have := mt (And.intro hflush) hfails
        dsimp only
        omega
    · rw [if_neg hfits]
      exact .cut rfl (Nat.lt_of_not_le hfits)

end PeerCensus.Sink
