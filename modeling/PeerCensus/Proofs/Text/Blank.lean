import PeerCensus.Text.Blank

/-!
# White space around a text

A text is some core with white space around it, and only one core has no white space at its own
ends. To trim a text is to find this core.

Results:
* `trimChars_eq_iff`: what a text is trimmed to.
* `trimChars_eq_nil_iff`: which texts are trimmed to nothing.
* `trimChars_trimChars`: nothing is left to trim.
-/

namespace PeerCensus.Text

/-- `chars` is `core` with white space before and after it. -/
def Pads (chars core : List Char) : Prop :=
  ∃ before after, chars = before ++ core ++ after ∧ (∀ c ∈ before, isBlank c = true) ∧
    ∀ c ∈ after, isBlank c = true

/-- `core` has no white space at its ends. -/
def Bare (core : List Char) : Prop :=
  (∀ c ∈ core.head?, isBlank c = false) ∧ ∀ c ∈ core.getLast?, isBlank c = false

theorem pads_self (core : List Char) : Pads core core :=
  ⟨[], [], by simp⟩

theorem bare_of_forall {core : List Char} (h : ∀ c ∈ core, isBlank c = false) : Bare core :=
  ⟨fun c hc => h c (List.mem_of_head? hc), fun c hc => h c (List.mem_of_getLast? hc)⟩

/-! ## White space in front -/

theorem head?_dropWhile (chars : List Char) :
    ∀ c ∈ (chars.dropWhile isBlank).head?, isBlank c = false := by
  intro c hc
  have hnot := List.head?_dropWhile_not isBlank chars
  rw [Option.mem_def.1 hc] at hnot
  simpa using hnot

theorem dropWhile_append {before core : List Char} (hbefore : ∀ c ∈ before, isBlank c = true)
    (hcore : ∀ c ∈ core.head?, isBlank c = false) : (before ++ core).dropWhile isBlank = core := by
  rw [List.dropWhile_append_of_pos hbefore]
  cases core with
  | nil => rfl
  | cons c core => exact List.dropWhile_cons_of_neg (by simp [hcore c rfl])

/-! ## White space at both ends -/

theorem dropWhile_eq_trimChars_append (chars : List Char) : chars.dropWhile isBlank =
    trimChars chars ++ ((chars.dropWhile isBlank).reverse.takeWhile isBlank).reverse := by
  rw [trimChars, ← List.reverse_append, List.takeWhile_append_dropWhile, List.reverse_reverse]

theorem pads_trimChars (chars : List Char) : Pads chars (trimChars chars) := by
  refine ⟨chars.takeWhile isBlank,
    ((chars.dropWhile isBlank).reverse.takeWhile isBlank).reverse, ?_, ?_, ?_⟩
  · rw [List.append_assoc, ← dropWhile_eq_trimChars_append, List.takeWhile_append_dropWhile]
  · exact List.all_eq_true.1 List.all_takeWhile
  · intro c hc
    exact List.all_eq_true.1 List.all_takeWhile c (List.mem_reverse.1 hc)

theorem bare_trimChars (chars : List Char) : Bare (trimChars chars) := by
  constructor
  · -- the first character is the one that follows the white space in front
    intro c hc
    apply head?_dropWhile chars
    rw [dropWhile_eq_trimChars_append, List.head?_append, Option.mem_def.1 hc]
    rfl
  · unfold trimChars
    rw [List.getLast?_reverse]
    exact head?_dropWhile _

theorem trimChars_of_pads {chars core : List Char} (h : Pads chars core) (hcore : Bare core) :
    trimChars chars = core := by
  obtain ⟨before, after, rfl, hbefore, hafter⟩ := h
  cases core with
  | nil =>
    apply trim_of_blank
    intro c hc
    rw [List.append_nil] at hc
    exact (List.mem_append.1 hc).elim (hbefore c) (hafter c)
  | cons c core =>
    have hfirst : ∀ d ∈ (c :: core ++ after).head?, isBlank d = false := hcore.1
    have hlast : ∀ d ∈ (c :: core).reverse.head?, isBlank d = false := by
      intro d hd
      rw [List.head?_reverse] at hd
      exact hcore.2 d hd
    have hback : ∀ d ∈ after.reverse, isBlank d = true := fun d hd =>
      hafter d (List.mem_reverse.1 hd)
    rw [trimChars, List.append_assoc, dropWhile_append hbefore hfirst, List.reverse_append,
      dropWhile_append hback hlast, List.reverse_reverse]

/-- A text is trimmed to the core that it has white space around, and that has none at its ends. -/
theorem trimChars_eq_iff {chars core : List Char} :
    trimChars chars = core ↔ Pads chars core ∧ Bare core := by
  constructor
  · rintro rfl
    exact ⟨pads_trimChars chars, bare_trimChars chars⟩
  · rintro ⟨h, hcore⟩
    exact trimChars_of_pads h hcore

theorem trimChars_trimChars (chars : List Char) : trimChars (trimChars chars) = trimChars chars :=
  trimChars_of_pads (pads_self _) (bare_trimChars chars)

theorem trimChars_eq_nil_iff {chars : List Char} :
    trimChars chars = [] ↔ ∀ c ∈ chars, isBlank c = true := by
  constructor
  · intro h
    obtain ⟨before, after, hchars, hbefore, hafter⟩ := (trimChars_eq_iff.1 h).1
    intro c hc
    rw [hchars, List.append_nil] at hc
    exact (List.mem_append.1 hc).elim (hbefore c) (hafter c)
  · exact trim_of_blank

end PeerCensus.Text
