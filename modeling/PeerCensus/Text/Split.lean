/-!
# Splitting text

Cutting a text at every occurrence of one character. There is always at least one piece, and the
pieces joined by the character are the text again, and only pieces without the character are.

Results:
* `splitChars_ne_nil`, `intercalate_splitChars`.
* `split_eq_iff`: the pieces of a text are those without the character that it joins.
* `notMem_of_mem_split`, `intercalate_split`.
-/

namespace PeerCensus.Text

/-- The pieces of `chars` between the occurrences of `sep`. -/
def splitChars (sep : Char) : List Char → List (List Char)
  | [] => [[]]
  | c :: rest =>
    if c = sep then [] :: splitChars sep rest
    else
      match splitChars sep rest with
      | [] => [[c]]
      | piece :: pieces => (c :: piece) :: pieces

/-- The pieces of `text` between the occurrences of `sep`. -/
def split (sep : Char) (text : String) : List String :=
  (splitChars sep text.toList).map String.ofList

theorem splitChars_ne_nil (sep : Char) (chars : List Char) : splitChars sep chars ≠ [] := by
  cases chars with
  | nil => simp [splitChars]
  | cons c rest =>
    rw [splitChars]
    split
    · simp
    · split <;> simp

theorem intercalate_splitChars (sep : Char) (chars : List Char) :
    [sep].intercalate (splitChars sep chars) = chars := by
  induction chars with
  | nil => simp [splitChars, List.intercalate]
  | cons c rest ih =>
    rw [splitChars]
    split
    · rename_i h
      subst h
      cases hs : splitChars c rest with
      | nil => exact absurd hs (splitChars_ne_nil c rest)
      | cons piece pieces =>
        rw [hs] at ih
        simp only [List.intercalate, List.intersperse] at ih ⊢
        simp [ih]
    · split
      · rename_i hs
        exact absurd hs (splitChars_ne_nil sep rest)
      · rename_i piece pieces hs
        rw [hs] at ih
        cases pieces with
        | nil => simpa [List.intercalate] using ih
        | cons p ps =>
          simp only [List.intercalate, List.intersperse] at ih ⊢
          simpa using ih

theorem splitChars_of_notMem {sep : Char} {piece : List Char} (h : sep ∉ piece) :
    splitChars sep piece = [piece] := by
  induction piece with
  | nil => rfl
  | cons c piece ih =>
    obtain ⟨hc, hpiece⟩ := not_or.1 (mt List.mem_cons.2 h)
    rw [splitChars, if_neg (Ne.symm hc), ih hpiece]

theorem splitChars_append_cons {sep : Char} {piece : List Char} (h : sep ∉ piece)
    (rest : List Char) : splitChars sep (piece ++ sep :: rest) = piece :: splitChars sep rest := by
  induction piece with
  | nil => exact if_pos rfl
  | cons c piece ih =>
    obtain ⟨hc, hpiece⟩ := not_or.1 (mt List.mem_cons.2 h)
    rw [List.cons_append, splitChars, if_neg (Ne.symm hc), ih hpiece]

theorem splitChars_intercalate {sep : Char} {pieces : List (List Char)} (hne : pieces ≠ [])
    (h : ∀ piece ∈ pieces, sep ∉ piece) : splitChars sep ([sep].intercalate pieces) = pieces := by
  induction pieces with
  | nil => exact absurd rfl hne
  | cons piece pieces ih =>
    obtain ⟨hpiece, hpieces⟩ := List.forall_mem_cons.1 h
    cases pieces with
    | nil => rw [List.intercalate_singleton, splitChars_of_notMem hpiece]
    | cons next pieces =>
      rw [List.intercalate_cons_cons, List.append_assoc, List.singleton_append,
        splitChars_append_cons hpiece, ih (List.cons_ne_nil _ _) hpieces]

theorem split_eq_iff {sep : Char} {text : String} {pieces : List String} (hne : pieces ≠ [])
    (h : ∀ piece ∈ pieces, sep ∉ piece.toList) :
    split sep text = pieces ↔ text = (String.singleton sep).intercalate pieces := by
  have hjoin : ((String.singleton sep).intercalate pieces).toList =
      [sep].intercalate (pieces.map String.toList) := by
    rw [String.toList_intercalate, String.toList_singleton]
  constructor
  · rintro rfl
    apply String.toList_injective
    rw [hjoin, split, List.map_map]
    simp [Function.comp_def, intercalate_splitChars]
  · rintro rfl
    rw [split, hjoin, splitChars_intercalate]
    · simp
    · simpa using hne
    · simpa using h

theorem notMem_of_mem_splitChars {sep : Char} {chars piece : List Char}
    (h : piece ∈ splitChars sep chars) : sep ∉ piece := by
  induction chars generalizing piece with
  | nil => simp_all [splitChars]
  | cons c rest ih =>
    rw [splitChars] at h
    split at h
    · rcases List.mem_cons.1 h with rfl | h
      · exact List.not_mem_nil
      · exact ih h
    rename_i hc
    cases hs : splitChars sep rest with
    | nil => exact absurd hs (splitChars_ne_nil sep rest)
    | cons first others =>
      simp only [hs] at h
      rw [hs] at ih
      rcases List.mem_cons.1 h with rfl | h
      · exact List.not_mem_cons_of_ne_of_not_mem (Ne.symm hc) (ih List.mem_cons_self)
      · exact ih (List.mem_cons_of_mem _ h)

theorem split_ne_nil (sep : Char) (text : String) : split sep text ≠ [] := by
  simpa [split] using splitChars_ne_nil sep text.toList

theorem notMem_of_mem_split {sep : Char} {text piece : String} (h : piece ∈ split sep text) :
    sep ∉ piece.toList := by
  obtain ⟨chars, hchars, rfl⟩ := List.mem_map.1 h
  rw [String.toList_ofList]
  exact notMem_of_mem_splitChars hchars

theorem intercalate_split (sep : Char) (text : String) :
    (String.singleton sep).intercalate (split sep text) = text :=
  ((split_eq_iff (split_ne_nil sep text) fun _ => notMem_of_mem_split).1 rfl).symm

end PeerCensus.Text
