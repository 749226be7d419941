import PeerCensus.Proofs.Wire.Varint

/-!
# How long readers wait

Someone who gives up at some point of time reads off a source that brings nothing after that. A reader
is punctual if this is all that such a deadline changes: what it comes to in time, it comes to anyway,
and leaves a source with the rest of the time to go; if it takes longer, it is never answered. Reading
one thing after another is punctual if both readings are, so that the deadline counts for all of what
is read and not for every single read.

Results:
* `Source.gather_early`, `Source.length_gather_early_lt`: what is gathered of the pieces that come in
  time.
* `Source.take_upTo_cases`: what a single read comes to under a deadline.
* `Reader.Punctual.resume`, `Reader.Punctual.bind`: reading on is punctual.
* `Varint.punctual_read`: the reader of varints is punctual.
-/

namespace PeerCensus

namespace Source

variable {n deadline limit : Nat} {pieces : List Piece} {s : Source}

/-! ## Pieces that come in time -/

/-- If the first bytes come in time, they are gathered, with the rest of the time for what is left. -/
theorem gather_early (h : (gather n pieces).2.1 ≤ deadline) :
    gather n (early deadline pieces) = ((gather n pieces).1, (gather n pieces).2.1,
      early (deadline - (gather n pieces).2.1) (gather n pieces).2.2) := by
  induction pieces generalizing n deadline with
  | nil => rfl
  | cons piece pieces ih =>
    by_cases hshort : piece.bytes.length < n
    · rw [gather_of_short hshort] at h ⊢
      dsimp only at h
      rw [early, if_pos (by omega), gather_of_short hshort, ih (by omega)]
      simp only [Nat.sub_sub]
    · rw [gather_of_long hshort] at h ⊢
      rw [early, if_pos h, gather_of_long hshort]
      dsimp only
      rw [early, if_pos (Nat.zero_le _), Nat.sub_zero]

/-- If they do not, some of them are missing. -/
theorem length_gather_early_lt (hn : 0 < n) (h : deadline < (gather n pieces).2.1) :
    (gather n (early deadline pieces)).1.length < n := by
  induction pieces generalizing n deadline with
  | nil => exact absurd h (Nat.not_lt_zero _)
  | cons piece pieces ih =>
    by_cases hpause : piece.pause ≤ deadline
    · rw [early, if_pos hpause]
      by_cases hshort : piece.bytes.length < n
      · rw [gather_of_short hshort] at h ⊢
        dsimp only at h ⊢
        have missing := @ih (n - piece.bytes.length) (deadline - piece.pause) (by omega) (by omega)
        rw [List.length_append]
        omega
      · rw [gather_of_long hshort] at h
        exact absurd hpause (Nat.not_le.2 h)
    · rw [early, if_neg hpause]
      exact hn

/-- When bytes are missing, all pieces have been used up. -/
theorem rest_of_short (h : (gather n pieces).1.length < n) : (gather n pieces).2.2 = [] := by
  induction pieces generalizing n with
  | nil => rfl
  | cons piece pieces ih =>
    by_cases hshort : piece.bytes.length < n
    · rw [gather_of_short hshort] at h ⊢
      rw [List.length_append] at h
      exact ih (by omega)
    · rw [gather_of_long hshort, List.length_take] at h
      omega

theorem early_of_pauses_le (h : pauses pieces ≤ deadline) : early deadline pieces = pieces := by
  induction pieces generalizing deadline with
  | nil => rfl
  | cons piece pieces ih =>
    rw [pauses_cons] at h
    rw [early, if_pos (by omega), ih (by omega)]

/-- The bytes that come within `deadline` milliseconds. -/
def arrived (deadline : Nat) (s : Source) : Bytes :=
  (early deadline s.pieces).flatMap Piece.bytes

theorem upTo_of_le (h : s.due ≤ deadline) : s.upTo deadline = s := if_pos h

theorem upTo_of_lt (h : deadline < s.due) :
    s.upTo deadline = { s with pieces := early deadline s.pieces, ending := .silent } :=
  if_neg (Nat.not_le.2 h)

/-- They are what someone sees who gives up then. -/
theorem remaining_upTo (deadline : Nat) (s : Source) :
    (s.upTo deadline).remaining = s.arrived deadline := by
  rcases Nat.lt_or_ge deadline s.due with h | h
  · rw [upTo_of_lt h]
    rfl
  · rw [upTo_of_le h, arrived, early_of_pauses_le (Nat.le_trans (Nat.le_add_right ..) h)]
    rfl

/-! ## A single read -/

theorem take_of_enough (h : ¬ (gather n s.pieces).1.length < n) :
    s.take n = ((gather n s.pieces).1,
      { s with
        pieces := (gather n s.pieces).2.2
        waited := s.waited + (gather n s.pieces).2.1
        consumed := s.consumed + (gather n s.pieces).1.length }) := by
  rw [take]
  dsimp only
  rw [if_neg h]

/-- Whoever asks for more than comes waits for all of it. -/
theorem take_of_short (h : (gather n s.pieces).1.length < n) :
    s.take n = ((gather n s.pieces).1,
      { s with
        pieces := []
        delay := 0
        waited := s.waited + s.due
        consumed := s.consumed + (gather n s.pieces).1.length }) := by
  have total := pauses_gather n s.pieces
  rw [rest_of_short h, show pauses [] = 0 from rfl] at total
  rw [take]
  dsimp only
  rw [if_pos h, rest_of_short h, ended, due, ← total, Nat.add_assoc, Nat.add_zero]

theorem waited_take (n : Nat) (s : Source) : s.waited ≤ (s.take n).2.waited := by
  by_cases h : (gather n s.pieces).1.length < n
  · rw [take_of_short h]
    exact Nat.le_add_right ..
  · rw [take_of_enough h]
    exact Nat.le_add_right ..

/-- Bytes that are missing anyway, or come too late, are missing under the deadline. -/
theorem take_upTo_of_late (hn : 0 < n) (hdue : deadline < s.due)
    (h : (gather n s.pieces).1.length < n ∨ deadline < (gather n s.pieces).2.1) :
    ((s.upTo deadline).take n).1.length < n ∧
      ((s.upTo deadline).take n).2.ending = .silent := by
  have missing : (gather n (early deadline s.pieces)).1.length < n := by
    by_cases hwait : (gather n s.pieces).2.1 ≤ deadline
    · rw [gather_early hwait]
      exact h.resolve_right (Nat.not_lt.2 hwait)
    · exact length_gather_early_lt hn (Nat.lt_of_not_le hwait)
  rw [upTo_of_lt hdue, take_of_short missing]
  exact ⟨missing, rfl⟩

/-- Bytes that come in time are taken, and the rest of the time is left for the others. -/
theorem take_upTo_of_enough (henough : ¬ (gather n s.pieces).1.length < n)
    (hwait : (gather n s.pieces).2.1 ≤ deadline) :
    (s.upTo deadline).take n =
      ((s.take n).1, (s.take n).2.upTo (deadline - (gather n s.pieces).2.1)) := by
  have total := pauses_gather n s.pieces
  rw [take_of_enough henough]
  dsimp only
  rcases Nat.lt_or_ge deadline s.due with hdue | hdue
  · have enough : ¬ (gather n (early deadline s.pieces)).1.length < n := by
      rw [gather_early hwait]
      exact henough
    rw [upTo_of_lt hdue, take_of_enough enough, upTo_of_lt (by simp only [due] at *; omega)]
    dsimp only
    rw [gather_early hwait]
  · rw [upTo_of_le hdue, take_of_enough henough, upTo_of_le (by simp only [due] at *; omega)]

/-- Of a source that has come to its end nothing can be late. -/
theorem upTo_take_of_short (hshort : (gather n s.pieces).1.length < n) (deadline : Nat) :
    (s.take n).2.upTo deadline = (s.take n).2 := by
  rw [take_of_short hshort]
  exact upTo_of_le (Nat.zero_le _)

/-- What a single read comes to by the time `limit`. It comes later, and is not answered then. Or it
comes by then, and so it does for someone who gives up then; if it comes to fewer bytes than asked for,
there is nothing left for which the time could matter. -/
theorem take_upTo_cases (hn : 0 < n) (hs : s.waited ≤ limit) :
    (limit < (s.take n).2.waited ∧ ((s.upTo (limit - s.waited)).take n).1.length < n ∧
        ((s.upTo (limit - s.waited)).take n).2.ending = .silent) ∨
      ((s.take n).2.waited ≤ limit ∧
        (s.upTo (limit - s.waited)).take n =
          ((s.take n).1, (s.take n).2.upTo (limit - (s.take n).2.waited)) ∧
        ((s.take n).1.length = n ∨
          (s.take n).2.upTo (limit - (s.take n).2.waited) = (s.take n).2)) := by
  by_cases hshort : (gather n s.pieces).1.length < n
  · have waited : (s.take n).2.waited = s.waited + s.due := by rw [take_of_short hshort]
    have nothing := upTo_take_of_short hshort (limit - (s.take n).2.waited)
    rcases Nat.lt_or_ge (limit - s.waited) s.due with hdue | hdue
    · exact .inl ⟨by omega, take_upTo_of_late hn hdue (.inl hshort)⟩
    · exact .inr ⟨by omega, by rw [upTo_of_le hdue, nothing], .inr nothing⟩
  · have waited : (s.take n).2.waited = s.waited + (gather n s.pieces).2.1 := by
      rw [take_of_enough hshort]
    have length : (s.take n).1.length = n := by
      have most : (gather n s.pieces).1.length ≤ n := by
        rw [(gather_eq n s.pieces).1]
        exact List.length_take_le ..
      rw [take_of_enough hshort]
      exact Nat.le_antisymm most (Nat.le_of_not_lt hshort)
    rcases Nat.lt_or_ge (limit - s.waited) (gather n s.pieces).2.1 with hwait | hwait
    · have hdue : limit - s.waited < s.due := by
        rw [due, ← pauses_gather n s.pieces]
        omega
      exact .inl ⟨by omega, take_upTo_of_late hn hdue (.inr hwait)⟩
    · refine .inr ⟨by omega, ?_, .inl length⟩
      rw [take_upTo_of_enough hshort hwait, waited, Nat.sub_sub]

end Source

/-! ## Readers -/

/-- What becomes of `x`, which an operation comes to without a deadline, if it is given up at the time
`limit`: it is the same if it comes by then, and never comes otherwise. -/
structure Source.Meets (limit : Nat) (x y : Except (Halt ε) α × Source) : Prop where
  inTime : x.1 ≠ .error .hung → x.2.waited ≤ limit → y = (x.1, x.2.upTo (limit - x.2.waited))
  late : x.1 = .error .hung ∨ limit < x.2.waited → y.1 = .error .hung

namespace Reader

variable {r : Reader ε α}

/-- A deadline changes nothing for the reader but that it gives up then. -/
structure Punctual (r : Reader ε α) : Prop where
  forward : ∀ s : Source, s.waited ≤ (r s).2.waited
  meets : ∀ (limit : Nat) (s : Source), s.waited ≤ limit →
    Source.Meets limit (r s) (r (s.upTo (limit - s.waited)))

theorem punctual_pure (a : α) : (pure a : Reader ε α).Punctual where
  forward _ := Nat.le_refl _
  meets _ _ hs := ⟨fun _ _ => rfl, fun h => absurd h (not_or.2 ⟨nofun, Nat.not_lt.2 hs⟩)⟩

theorem punctual_fail (e : ε) : (fail e : Reader ε α).Punctual where
  forward _ := Nat.le_refl _
  meets _ _ hs := ⟨fun _ _ => rfl, fun h => absurd h (not_or.2 ⟨nofun, Nat.not_lt.2 hs⟩)⟩

theorem punctual_ofExcept (result : Except ε α) : (ofExcept result).Punctual := by
  cases result with
  | ok a => exact punctual_pure a
  | error e => exact punctual_fail e

/-- A reader is punctual whose result depends on one read alone, if it is answered by the bytes that it
asks for and never answered by a silent end before them. -/
theorem punctual_of_take {n : Nat} (hn : 0 < n)
    (same : ∀ s t : Source, s.take n = t.take n → r s = r t)
    (left : ∀ s : Source, (r s).2 = (s.take n).2)
    (enough : ∀ s : Source, (s.take n).1.length = n → ∃ a,
      ∀ t : Source, (t.take n).1 = (s.take n).1 → (r t).1 = .ok a)
    (starved : ∀ s : Source, (s.take n).1.length < n → (s.take n).2.ending = .silent →
      (r s).1 = .error .hung) : r.Punctual where
  forward s := by
    rw [left]
    exact s.waited_take n
  meets limit s hs := by
    rcases Source.take_upTo_cases hn hs with ⟨hlate, hshort, hsilent⟩ | ⟨hle, htake, hleft⟩
    · refine ⟨fun _ hle => ?_, fun _ => starved _ hshort hsilent⟩
      rw [left] at hle
      omega
    · have cut : (r (s.upTo (limit - s.waited))).2 = (r s).2.upTo (limit - (r s).2.waited) := by
        rw [left, left, htake]
      rcases hleft with hlength | hleft
      · obtain ⟨a, answered⟩ := enough s hlength
        have first : (r s).1 = .ok a := answered s rfl
        have second : (r (s.upTo (limit - s.waited))).1 = .ok a := answered _ (by rw [htake])
        refine ⟨fun _ _ => Prod.ext (second.trans first.symm) cut, fun hlate => ?_⟩
        rw [first, left] at hlate
        exact absurd hlate (not_or.2 ⟨nofun, Nat.not_lt.2 hle⟩)
      · have equal : r (s.upTo (limit - s.waited)) = r s := same _ _ (by rw [htake, hleft])
        refine ⟨fun _ _ => Prod.ext (by rw [equal]) cut, fun hlate => ?_⟩
        rw [equal]
        refine hlate.resolve_right fun hover => ?_
        rw [left] at hover
        omega

theorem snd_byte? (s : Source) : (byte? s).2 = (s.take 1).2 := by
  rw [byte?]
  rcases s.take 1 with ⟨_ | ⟨b, bytes⟩, s'⟩
  · dsimp only
    cases s'.ending <;> rfl
  · rfl

theorem punctual_byte? : byte?.Punctual := by
  refine punctual_of_take Nat.one_pos (fun s t h => ?_) snd_byte? (fun s hlength => ?_)
    fun s hshort hsilent => ?_
  · rw [byte?, byte?, h]
  · obtain ⟨b, hb⟩ := List.length_eq_one_iff.1 hlength
    refine ⟨some b, fun t ht => ?_⟩
    rw [byte?, show t.take 1 = ([b], (t.take 1).2) from Prod.ext (ht.trans hb) rfl]
  · have nothing := List.length_eq_zero_iff.1 (Nat.lt_one_iff.1 hshort)
    rw [byte?, show s.take 1 = ([], (s.take 1).2) from Prod.ext nothing rfl]
    simp only [hsilent]

theorem snd_exactly {n : Nat} (h : n ≠ 0) (s : Source) : (exactly n s).2 = (s.take n).2 := by
  rw [exactly, if_neg h]
  rcases s.take n with ⟨bytes, s'⟩
  dsimp only
  split
  · rfl
  · cases s'.ending <;> rfl

theorem punctual_exactly (n : Nat) : (exactly n).Punctual := by
  by_cases hn : n = 0
  · subst hn
    exact punctual_pure []
  · refine punctual_of_take (Nat.pos_of_ne_zero hn) (fun s t h => ?_) (snd_exactly hn)
      (fun s hlength => ⟨(s.take n).1, fun t ht => ?_⟩) fun s hshort hsilent => ?_
    · rw [exactly, exactly, if_neg hn, if_neg hn, h]
    · rw [exactly, if_neg hn]
      dsimp only
      rw [ht, if_pos hlength]
    · rw [exactly, if_neg hn]
      dsimp only
      rw [if_neg (Nat.ne_of_lt hshort)]
      simp only [hsilent]

/-! ## Reading on -/

/-- Reads on, whatever the first reader comes to, unless it is never answered. -/
def resume (r : Reader ε α) (k : Except ε α → Reader ε' β) : Reader ε' β := fun s =>
  match r s with
  | (.ok a, s) => k (.ok a) s
  | (.error (.failed e), s) => k (.error e) s
  | (.error .hung, s) => (.error .hung, s)

variable {k : Except ε α → Reader ε' β}

theorem resume_of_answered {s s' : Source} {result : Except ε α}
    (h : r s = (result.mapError .failed, s')) : r.resume k s = k result s' := by
  rw [resume, h]
  cases result <;> rfl

theorem resume_of_hung {s : Source} (h : (r s).1 = .error .hung) :
    r.resume k s = (.error .hung, (r s).2) := by
  rw [resume, show r s = (.error .hung, (r s).2) from Prod.ext h rfl]

theorem exists_of_ne_hung {s : Source} (h : (r s).1 ≠ .error .hung) :
    ∃ (result : Except ε α) (s' : Source), r s = (result.mapError .failed, s') := by
  rcases hr : r s with ⟨(e | _) | a, s'⟩
  · exact ⟨.error e, s', rfl⟩
  · rw [hr] at h
    exact absurd rfl h
  · exact ⟨.ok a, s', rfl⟩

/-- Reading on is punctual if both readings are: the second one has the rest of the time. -/
theorem Punctual.resume (h : r.Punctual)
    (hk : ∀ s result, (r s).1 = result.mapError .failed → (k result).Punctual) :
    (r.resume k).Punctual where
  forward s := by
    by_cases hung : (r s).1 = .error .hung
    · rw [resume_of_hung hung]
      exact h.forward s
    · obtain ⟨result, s', hr⟩ := exists_of_ne_hung hung
      have first := h.forward s
      rw [resume_of_answered hr]
      rw [hr] at first
      exact Nat.le_trans first ((hk s result (by rw [hr])).forward s')
  meets limit s hs := by
    have first := h.meets limit s hs
    by_cases hung : (r s).1 = .error .hung
    · rw [resume_of_hung hung, resume_of_hung (first.late (.inl hung))]
      exact ⟨fun hne => absurd rfl hne, fun _ => rfl⟩
    · obtain ⟨result, s', hr⟩ := exists_of_ne_hung hung
      have next := hk s result (by rw [hr])
      rw [hr] at first hung
      rw [resume_of_answered hr]
      rcases Nat.lt_or_ge limit s'.waited with hlate | hle
      · rw [resume_of_hung (first.late (.inr hlate))]
        have later := next.forward s'
        exact ⟨fun _ hle => absurd hle (by omega), fun _ => rfl⟩
      · rw [resume_of_answered (first.inTime hung hle)]
        exact next.meets limit s' hle

theorem Punctual.bind {k : α → Reader ε β} (h : r.Punctual)
    (hk : ∀ s a, (r s).1 = .ok a → (k a).Punctual) : (r >>= k).Punctual := by
  have same : r >>= k = r.resume fun result => ofExcept result >>= k := by
    funext s
    rw [bind_apply, Reader.resume]
    rcases r s with ⟨(e | _) | a, s'⟩ <;> rfl
  rw [same]
  refine h.resume fun s result hresult => ?_
  cases result with
  | ok a => exact hk s a hresult
  | error e => exact punctual_fail e

theorem Punctual.mapError (h : r.Punctual) (f : ε → ε') : (Reader.mapError f r).Punctual := by
  have same : Reader.mapError f r = r.resume fun result => ofExcept (result.mapError f) := by
    funext s
    rw [Reader.mapError, Reader.resume]
    rcases r s with ⟨(e | _) | a, s'⟩ <;> rfl
  rw [same]
  exact h.resume fun _ _ _ => punctual_ofExcept _

end Reader

namespace Varint

theorem punctual_readFrom (index value : Nat) : (readFrom index value).Punctual := by
  by_cases hi : index < maxLength
  · rw [readFrom_eq hi]
    refine (Reader.punctual_byte?.mapError _).bind fun _ found _ => ?_
    cases found with
    | none => exact Reader.punctual_fail _
    | some b =>
      rw [proceed]
      cases hb : advance index value b with
      | complete v => exact Reader.punctual_pure v
      | more v => exact punctual_readFrom (index + 1) v
      | overflow => exact Reader.punctual_fail _
  · rw [readFrom, if_neg hi]
    exact Reader.punctual_fail _
termination_by maxLength - index

/-- The reader of varints is punctual. -/
theorem punctual_read : read.Punctual := punctual_readFrom 0 0

end Varint

end PeerCensus
