import PeerCensus.Stream.Source

/-!
# What readers take

A reader is given pieces, but all that it can tell of them is which bytes stand at the front of the
source and how the source ends. Two relations say so: a reader `Takes` some bytes when it reads
exactly these wherever they stand, and it `Starves` on some bytes when it wants more than these.
A reader that `Decides` does one or the other on every source, and a specification says what it
comes to.

Results:
* `Decides.bind`: reading one thing after another decides if both readings do.
* `Decides.run`: what a reader that decides does on a given source.
* `Takes.unique`: what is taken from given bytes is determined.
-/

namespace PeerCensus

/-- `s'` is what is left of `s` after `taken` has been read off it. -/
structure Source.After (s : Source) (taken : Bytes) (s' : Source) : Prop where
  remaining : s.remaining = taken ++ s'.remaining
  ending : s'.ending = s.ending
  consumed : s'.consumed = s.consumed + taken.length

namespace Source.After

theorem refl (s : Source) : s.After [] s := ⟨rfl, rfl, rfl⟩

theorem trans {s s' s'' : Source} {a b : Bytes} (h : s.After a s') (h' : s'.After b s'') :
    s.After (a ++ b) s'' where
  remaining := by rw [h.remaining, h'.remaining, List.append_assoc]
  ending := h'.ending.trans h.ending
  consumed := by rw [h'.consumed, h.consumed, List.length_append, Nat.add_assoc]

theorem rest_eq {s s' : Source} {taken rest : Bytes} (h : s.After taken s')
    (hs : s.remaining = taken ++ rest) : s'.remaining = rest :=
  List.append_cancel_left (h.remaining.symm.trans hs)

/-- The bytes between two states of a source are determined. -/
theorem unique {s s' : Source} {a b : Bytes} (h : s.After a s') (h' : s.After b s') : a = b :=
  List.append_cancel_right (h.remaining.symm.trans h'.remaining)

end Source.After

theorem Source.take_after (n : Nat) (s : Source) :
    ∃ s', s.take n = (s.remaining.take n, s') ∧ s.After (s.remaining.take n) s' := by
  obtain ⟨taken, left⟩ := Source.gather_eq n s.pieces
  refine ⟨(s.take n).2, Prod.ext taken rfl, ?_⟩
  have all : s.remaining =
      s.remaining.take n ++ (Source.gather n s.pieces).2.2.flatMap Piece.bytes := by
    rw [left]
    exact (List.take_append_drop n _).symm
  have count : s.consumed + (Source.gather n s.pieces).1.length =
      s.consumed + (s.remaining.take n).length := congrArg _ (congrArg _ taken)
  -- waiting for the ending changes neither what is to come nor what has been taken
  rw [Source.take]
  dsimp only
  split
  · exact ⟨all, rfl, count⟩
  · exact ⟨all, rfl, count⟩

@[simp] theorem mapError_ok (f : ε → ε') (a : α) : (Except.ok a).mapError f = .ok a := rfl

@[simp] theorem mapError_error (f : ε → ε') (e : ε) :
    (.error e : Except ε α).mapError f = .error (f e) := rfl

/-- How a reader stops that wants more than a source has. -/
def Ending.halt (onClose : ε) (onFault : Fault → ε) : Ending → Halt ε
  | .closed => .failed onClose
  | .failing fault => .failed (onFault fault)
  | .silent => .hung

namespace Reader

variable {r : Reader ε α} {k : α → Reader ε β} {halt : Ending → Halt ε}

theorem bind_apply (r : Reader ε α) (k : α → Reader ε β) (s : Source) :
    (r >>= k) s = match r s with
      | (.ok a, s') => k a s'
      | (.error e, s') => (.error e, s') := by
  show ExceptT.bindCont k (r s).1 (r s).2 = _
  split <;> rename_i h <;> rw [h] <;> rfl

/-- Wherever `taken` stands at the front of a source, the reader takes exactly these bytes and comes
to `result`. -/
def Takes (r : Reader ε α) (taken : Bytes) (result : Except ε α) : Prop :=
  ∀ s rest, s.remaining = taken ++ rest →
    ∃ s', r s = (result.mapError .failed, s') ∧ s.After taken s'

/-- When `bytes` are all that comes, the reader takes them and wants more; `halt` says how it then
stops. -/
def Starves (r : Reader ε α) (bytes : Bytes) (halt : Ending → Halt ε) : Prop :=
  ∀ s, s.remaining = bytes → ∃ s', r s = (.error (halt s.ending), s') ∧ s.After bytes s'

/-- On all bytes the reader either takes some of them and comes to a result, as `spec` says, or
starves. -/
def Decides (r : Reader ε α) (spec : Bytes → Except ε α → Prop) (halt : Ending → Halt ε) : Prop :=
  ∀ bytes,
    (∃ taken result, taken <+: bytes ∧ r.Takes taken result ∧ spec taken result) ∨
      r.Starves bytes halt

/-! ## Taking -/

theorem takes_pure (a : α) : (pure a : Reader ε α).Takes [] (.ok a) :=
  fun s _ _ => ⟨s, rfl, .refl s⟩

theorem takes_fail (e : ε) : (fail e : Reader ε α).Takes [] (.error e) :=
  fun s _ _ => ⟨s, rfl, .refl s⟩

theorem takes_ofExcept (result : Except ε α) : (ofExcept result).Takes [] result := by
  cases result with
  | ok a => exact takes_pure a
  | error e => exact takes_fail e

theorem Takes.bind {a : α} {taken more : Bytes} {result : Except ε β}
    (h : r.Takes taken (.ok a)) (hk : (k a).Takes more result) :
    (r >>= k).Takes (taken ++ more) result := by
  intro s rest hs
  rw [List.append_assoc] at hs
  obtain ⟨s', hr, ha⟩ := h s _ hs
  obtain ⟨s'', hk, ha'⟩ := hk s' rest (ha.rest_eq hs)
  refine ⟨s'', ?_, ha.trans ha'⟩
  rw [bind_apply, hr]
  exact hk

/-- One byte is taken, and then more. -/
theorem Takes.bind_cons {b : UInt8} {a : α} {more : Bytes} {result : Except ε β}
    (h : r.Takes [b] (.ok a)) (hk : (k a).Takes more result) :
    (r >>= k).Takes (b :: more) result :=
  h.bind hk

theorem Takes.bind_error {e : ε} {taken : Bytes} (h : r.Takes taken (.error e)) :
    (r >>= k).Takes taken (.error e) := by
  intro s rest hs
  obtain ⟨s', hr, ha⟩ := h s rest hs
  refine ⟨s', ?_, ha⟩
  rw [bind_apply, hr]
  rfl

theorem Takes.mapError {taken : Bytes} {result : Except ε α} (h : r.Takes taken result)
    (f : ε → ε') : (Reader.mapError f r).Takes taken (result.mapError f) := by
  intro s rest hs
  obtain ⟨s', hr, ha⟩ := h s rest hs
  refine ⟨s', ?_, ha⟩
  rw [Reader.mapError, hr]
  cases result <;> rfl

/-! ## Starving -/

theorem Starves.bind {bytes : Bytes} (h : r.Starves bytes halt) :
    (r >>= k).Starves bytes halt := by
  intro s hs
  obtain ⟨s', hr, ha⟩ := h s hs
  refine ⟨s', ?_, ha⟩
  rw [bind_apply, hr]

theorem Takes.bind_starves {a : α} {taken more : Bytes} (h : r.Takes taken (.ok a))
    (hk : (k a).Starves more halt) : (r >>= k).Starves (taken ++ more) halt := by
  intro s hs
  obtain ⟨s', hr, ha⟩ := h s more hs
  obtain ⟨s'', hk, ha'⟩ := hk s' (ha.rest_eq hs)
  refine ⟨s'', ?_, ha.trans ha'⟩
  rw [bind_apply, hr, ← ha.ending]
  exact hk

theorem Takes.bind_cons_starves {b : UInt8} {a : α} {more : Bytes} (h : r.Takes [b] (.ok a))
    (hk : (k a).Starves more halt) : (r >>= k).Starves (b :: more) halt :=
  h.bind_starves hk

theorem Starves.mapError {bytes : Bytes} {onClose : ε} {onFault : Fault → ε}
    (h : r.Starves bytes (Ending.halt onClose onFault)) (f : ε → ε') :
    (Reader.mapError f r).Starves bytes (Ending.halt (f onClose) (f ∘ onFault)) := by
  intro s hs
  obtain ⟨s', hr, ha⟩ := h s hs
  refine ⟨s', ?_, ha⟩
  rw [Reader.mapError, hr]
  cases s.ending <;> rfl

/-! ## Single bytes and blocks of bytes -/

theorem takes_byte? (b : UInt8) : byte?.Takes [b] (.ok (some b)) := by
  intro s rest hs
  obtain ⟨s', ht, ha⟩ := s.take_after 1
  rw [hs] at ht ha
  refine ⟨s', ?_, ha⟩
  rw [byte?, ht]
  rfl

/-- Who wants another byte and takes its absence for a failure starves where there is none. -/
theorem starves_byte? {f : Fault → ε} {k : Option UInt8 → Reader ε β} {e : ε}
    (hk : k none = fail e) :
    (Reader.mapError f byte? >>= k).Starves [] (Ending.halt e f) := by
  intro s hs
  obtain ⟨s', ht, ha⟩ := s.take_after 1
  rw [hs] at ht ha
  refine ⟨s', ?_, ha⟩
  rw [bind_apply, Reader.mapError, byte?, ht, ← ha.ending]
  cases he : s'.ending with
  | closed => simp only [List.take_nil, he, hk]; rfl
  | failing fault => simp only [List.take_nil, he]; rfl
  | silent => simp only [List.take_nil, he]; rfl

theorem takes_exactly {n : Nat} {bytes : Bytes} (h : bytes.length = n) :
    (exactly n).Takes bytes (.ok bytes) := by
  subst h
  intro s rest hs
  rw [exactly]
  split
  · rename_i h
    rw [List.length_eq_zero_iff.1 h]
    exact ⟨s, rfl, .refl s⟩
  · obtain ⟨s', ht, ha⟩ := s.take_after bytes.length
    rw [hs, List.take_left] at ht ha
    refine ⟨s', ?_, ha⟩
    rw [ht]
    exact if_pos rfl

theorem starves_exactly {n : Nat} {bytes : Bytes} (h : bytes.length < n) :
    (exactly n).Starves bytes (Ending.halt earlyEnd id) := by
  intro s hs
  obtain ⟨s', ht, ha⟩ := s.take_after n
  rw [hs, List.take_of_length_le (Nat.le_of_lt h)] at ht ha
  refine ⟨s', ?_, ha⟩
  rw [exactly, if_neg (by omega), ht]
  dsimp only
  rw [if_neg (by omega), ← ha.ending]
  cases s'.ending <;> rfl

/-! ## What is determined -/

/-- What is taken from given bytes is determined, and so is what comes of it. -/
theorem Takes.unique {a b bytes : Bytes} {x y : Except ε α} (h : r.Takes a x) (h' : r.Takes b y)
    (ha : a <+: bytes) (hb : b <+: bytes) : a = b ∧ x = y := by
  obtain ⟨resta, hra⟩ := ha
  obtain ⟨restb, hrb⟩ := hb
  let s : Source := .new [bytes] .closed 0
  have all : s.remaining = bytes := by simp [s, Source.new, Source.remaining]
  obtain ⟨s', hrun, after⟩ := h s resta (all.trans hra.symm)
  obtain ⟨s'', hrun', after'⟩ := h' s restb (all.trans hrb.symm)
  have same := hrun.symm.trans hrun'
  obtain rfl : s' = s'' := congrArg Prod.snd same
  refine ⟨after.unique after', ?_⟩
  have results : x.mapError Halt.failed = y.mapError Halt.failed := congrArg Prod.fst same
  cases x <;> cases y <;> simp_all

/-! ## Deciding -/

section Decides

variable {spec : Bytes → Except ε α → Prop}

theorem Takes.decides {result : Except ε α} (h : r.Takes [] result) (hspec : spec [] result) :
    r.Decides spec halt :=
  fun _ => .inl ⟨[], result, List.nil_prefix, h, hspec⟩

theorem Decides.mono {spec' : Bytes → Except ε α → Prop} (h : r.Decides spec halt)
    (hspec : ∀ taken result, spec taken result → spec' taken result) : r.Decides spec' halt := by
  intro bytes
  rcases h bytes with ⟨taken, result, hp, ht, hs⟩ | hs
  · exact .inl ⟨taken, result, hp, ht, hspec _ _ hs⟩
  · exact .inr hs

/-- Reading one thing after another decides if both readings do. -/
theorem Decides.bind {spec' : Bytes → Except ε β → Prop} (h : r.Decides spec halt)
    (hk : ∀ taken a, spec taken (.ok a) → (k a).Decides (fun more => spec' (taken ++ more)) halt)
    (herror : ∀ taken e, spec taken (.error e) → spec' taken (.error e)) :
    (r >>= k).Decides spec' halt := by
  intro bytes
  rcases h bytes with ⟨taken, result, ⟨rest, rfl⟩, ht, hs⟩ | hs
  · cases result with
    | error e =>
      exact .inl ⟨taken, .error e, List.prefix_append .., ht.bind_error, herror _ _ hs⟩
    | ok a =>
      rcases hk taken a hs rest with ⟨more, result, hm, ht', hs'⟩ | hs'
      · exact .inl ⟨taken ++ more, result, (List.prefix_append_right_inj taken).2 hm,
          ht.bind ht', hs'⟩
      · exact .inr (ht.bind_starves hs')
  · exact .inr hs.bind

theorem Decides.mapError {spec' : Bytes → Except ε' α → Prop} {onClose : ε}
    {onFault : Fault → ε} {f : ε → ε'} (h : r.Decides spec (Ending.halt onClose onFault))
    (hspec : ∀ taken result, spec taken result → spec' taken (result.mapError f)) :
    (Reader.mapError f r).Decides spec' (Ending.halt (f onClose) (f ∘ onFault)) := by
  intro bytes
  rcases h bytes with ⟨taken, result, hp, ht, hs⟩ | hs
  · exact .inl ⟨taken, _, hp, ht.mapError f, hspec _ _ hs⟩
  · exact .inr (hs.mapError f)

theorem decides_exactly (n : Nat) :
    (exactly n).Decides (fun taken result => taken.length = n ∧ result = .ok taken)
      (Ending.halt earlyEnd id) := by
  intro bytes
  rcases Nat.lt_or_ge bytes.length n with h | h
  · exact .inr (starves_exactly h)
  · have length := List.length_take_of_le h
    exact .inl ⟨bytes.take n, _, List.take_prefix .., takes_exactly length, length, rfl⟩

/-- What a reader that decides does on a given source. -/
theorem Decides.run (h : r.Decides spec halt) (s : Source) :
    (∃ taken result s', r.Takes taken result ∧ spec taken result ∧ s.After taken s' ∧
        r s = (result.mapError .failed, s')) ∨
      (∃ s', r.Starves s.remaining halt ∧ s.After s.remaining s' ∧
        r s = (.error (halt s.ending), s')) := by
  rcases h s.remaining with ⟨taken, result, ⟨rest, hr⟩, ht, hs⟩ | hs
  · obtain ⟨s', hrun, ha⟩ := ht s rest hr.symm
    exact .inl ⟨taken, result, s', ht, hs, ha, hrun⟩
  · obtain ⟨s', hrun, ha⟩ := hs s rfl
    exact .inr ⟨s', hs, ha, hrun⟩

/-- A reader starves on what is cut off from bytes that it takes. -/
theorem Decides.starves_of_cut {taken cut : Bytes} {result : Except ε α}
    (h : r.Decides spec halt) (ht : r.Takes taken result) (hp : cut <+: taken) (hne : cut ≠ taken) :
    r.Starves cut halt := by
  rcases h cut with ⟨taken', result', hp', ht', -⟩ | hs
  · obtain ⟨rfl, -⟩ := ht'.unique ht (hp'.trans hp) (List.prefix_refl _)
    exact absurd (hp.eq_of_length_le hp'.length_le) hne
  · exact hs

end Decides

end Reader

end PeerCensus
