import PeerCensus.Chain.Fork
import PeerCensus.Proofs.Text.Hex

/-!
# Lists of fork digests

A list of digests is one item between any two commas. `Lists` says which items stand for which
digests: texts of a digest for that digest, in order, and items of white space only for none. The
list is read just where its items are such items; anywhere else the error has the first item that is
neither, without the white space around it.

Results:
* `ForkDigest.parseItems_eq_ok_iff`, `ForkDigest.parseItems_eq_error_iff`: reading some items.
* `ForkDigest.parseList_eq`: a list is read by its items.
* `ForkDigest.parseList_exact`: which texts are read, as what, and with what error.
-/

namespace PeerCensus.ForkDigest

/-! ## Items -/

/-- The texts of a digest: eight hexadecimal digits of either case, with or without `0x` before
them, and with any white space around. -/
def Spells (item : String) (d : ForkDigest) : Prop :=
  Hex.SpellsPadded item.toList d.bytes.toList

/-- Whether there is only white space in an item. -/
def IsBlank (item : String) : Prop :=
  ∀ c ∈ item.toList, Text.isBlank c = true

/-- Whether an item is neither a digest nor blank. -/
def IsOther (item : String) : Prop :=
  ¬ IsBlank item ∧ ∀ d, ¬ Spells item d

/-- The digests some items stand for. -/
inductive Lists : List String → List ForkDigest → Prop
  | nil : Lists [] []
  | blank {item : String} {items : List String} {ds : List ForkDigest} :
    IsBlank item → Lists items ds → Lists (item :: items) ds
  | digest {item : String} {items : List String} {d : ForkDigest} {ds : List ForkDigest} :
    Spells item d → Lists items ds → Lists (item :: items) (d :: ds)

theorem parse_eq_ok_iff {text : String} {d : ForkDigest} :
    parse text = .ok d ↔ Spells text d := by
  unfold parse Spells
  rw [← Hex.parseFixed_eq_ok_iff]
  cases Hex.parseFixed 4 text with
  | ok bytes =>
    obtain ⟨value⟩ := d
    simp [Except.map]
  | error e => simp [Except.map]

theorem error_of_parse {text : String} {e : HexError} (h : parse text = .error e) : e = ⟨text⟩ := by
  unfold parse Hex.parseFixed at h
  split at h
  · cases h
  · cases h
    rfl

theorem parse_of_forall_not_spells {text : String} (h : ∀ d, ¬ Spells text d) :
    parse text = .error ⟨text⟩ := by
  cases hp : parse text with
  | ok d => exact absurd (parse_eq_ok_iff.1 hp) (h d)
  | error e => rw [error_of_parse hp]

/-- The white space that is cut off before an item is read makes no difference. -/
theorem spells_trim_iff {item : String} {d : ForkDigest} :
    Spells (Text.trim item) d ↔ Spells item d := by
  unfold Spells Text.trim
  rw [String.toList_ofList, ← Hex.decodeChars_trimChars_eq_some_iff, Text.trimChars_trimChars,
    Hex.decodeChars_trimChars_eq_some_iff]

theorem trim_eq_empty_iff {item : String} : Text.trim item = "" ↔ IsBlank item := by
  unfold IsBlank Text.trim
  rw [← Text.trimChars_eq_nil_iff, ← String.toList_inj, String.toList_ofList]
  rfl

theorem Spells.not_isBlank {item : String} {d : ForkDigest} (h : Spells item d) :
    ¬ IsBlank item := by
  intro hblank
  rw [← spells_trim_iff, trim_eq_empty_iff.2 hblank, ← parse_eq_ok_iff] at h
  cases h

theorem isBlank_or_spells_or_isOther (item : String) :
    IsBlank item ∨ (∃ d, Spells item d) ∨ IsOther item := by
  by_cases hblank : IsBlank item
  · exact .inl hblank
  by_cases hspells : ∃ d, Spells item d
  · exact .inr (.inl hspells)
  · exact .inr (.inr ⟨hblank, not_exists.1 hspells⟩)

/-- There is no comma in an item of a list. -/
theorem Spells.comma_notMem {item : String} {d : ForkDigest} (h : Spells item d) :
    ',' ∉ item.toList := by
  obtain ⟨core, ⟨before, after, hitem, hbefore, hafter⟩, hcore⟩ := h
  intro hcomma
  rw [hitem, List.mem_append, List.mem_append] at hcomma
  rcases hcomma with (hcomma | hcomma) | hcomma
  · exact absurd (hbefore _ hcomma) (by decide)
  · exact absurd (hcore.isDigit_or hcomma) (by decide)
  · exact absurd (hafter _ hcomma) (by decide)

theorem Lists.comma_notMem {items : List String} {ds : List ForkDigest} (h : Lists items ds) :
    ∀ item ∈ items, ',' ∉ item.toList := by
  induction h with
  | nil => exact fun _ hitem => absurd hitem List.not_mem_nil
  | blank hblank _ ih =>
    refine List.forall_mem_cons.2 ⟨?_, ih⟩
    intro hcomma
    exact absurd (hblank _ hcomma) (by decide)
  | digest hspells _ ih => exact List.forall_mem_cons.2 ⟨hspells.comma_notMem, ih⟩

/-! ## Reading items -/

/-- The digests of some items; the first item that is not a digest is the error. -/
def parseItems (items : List String) : Except HexError (List ForkDigest) :=
  ((items.map Text.trim).filter (· ≠ "")).mapM parse

theorem parseItems_blank {item : String} (h : IsBlank item) (items : List String) :
    parseItems (item :: items) = parseItems items := by
  unfold parseItems
  rw [List.map_cons, List.filter_cons_of_neg (by simp [trim_eq_empty_iff.2 h])]

theorem parseItems_cons {item : String} (h : ¬ IsBlank item) (items : List String) :
    parseItems (item :: items) = do return (← parse (Text.trim item)) :: (← parseItems items) := by
  unfold parseItems
  rw [List.map_cons, List.filter_cons_of_pos (by simpa using mt trim_eq_empty_iff.1 h),
    List.mapM_cons]

theorem parseItems_digest {item : String} {d : ForkDigest} (h : Spells item d)
    (items : List String) : parseItems (item :: items) = (parseItems items).map (d :: ·) := by
  rw [parseItems_cons h.not_isBlank, parse_eq_ok_iff.2 (spells_trim_iff.2 h)]
  rfl

theorem parseItems_other {item : String} (h : IsOther item) (items : List String) :
    parseItems (item :: items) = .error ⟨Text.trim item⟩ := by
  rw [parseItems_cons h.1, parse_of_forall_not_spells fun d hd => h.2 d (spells_trim_iff.1 hd)]
  rfl

theorem parseItems_of_lists {items : List String} {ds : List ForkDigest} (h : Lists items ds) :
    parseItems items = .ok ds := by
  induction h with
  | nil => rfl
  | blank hblank _ ih => rw [parseItems_blank hblank, ih]
  | digest hspells _ ih => rw [parseItems_digest hspells, ih, Except.map]

theorem parseItems_append_other {before after : List String} {bad : String}
    {ds : List ForkDigest} (h : Lists before ds) (hbad : IsOther bad) :
    parseItems (before ++ bad :: after) = .error ⟨Text.trim bad⟩ := by
  induction h with
  | nil => exact parseItems_other hbad after
  | blank hblank _ ih => rw [List.cons_append, parseItems_blank hblank, ih]
  | digest hspells _ ih => rw [List.cons_append, parseItems_digest hspells, ih, Except.map]

/-- Items are digests and blank ones only, or there is a first one that is neither. -/
theorem exists_lists_or_other (items : List String) : (∃ ds, Lists items ds) ∨
    ∃ before bad after, items = before ++ bad :: after ∧ (∃ ds, Lists before ds) ∧ IsOther bad := by
  induction items with
  | nil => exact .inl ⟨[], .nil⟩
  | cons item items ih =>
    rcases isBlank_or_spells_or_isOther item with hblank | ⟨d, hspells⟩ | hother
    · rcases ih with ⟨ds, h⟩ | ⟨before, bad, after, rfl, ⟨ds, h⟩, hbad⟩
      · exact .inl ⟨ds, .blank hblank h⟩
      · exact .inr ⟨item :: before, bad, after, rfl, ⟨ds, .blank hblank h⟩, hbad⟩
    · rcases ih with ⟨ds, h⟩ | ⟨before, bad, after, rfl, ⟨ds, h⟩, hbad⟩
      · exact .inl ⟨d :: ds, .digest hspells h⟩
      · exact .inr ⟨item :: before, bad, after, rfl, ⟨d :: ds, .digest hspells h⟩, hbad⟩
    · exact .inr ⟨[], item, items, rfl, ⟨[], .nil⟩, hother⟩

theorem parseItems_eq_ok_iff {items : List String} {ds : List ForkDigest} :
    parseItems items = .ok ds ↔ Lists items ds := by
  constructor
  · intro h
    rcases exists_lists_or_other items with
      ⟨ds', hlists⟩ | ⟨before, bad, after, rfl, ⟨_, hlists⟩, hbad⟩
    · rw [parseItems_of_lists hlists] at h
      cases h
      exact hlists
    · rw [parseItems_append_other hlists hbad] at h
      cases h
  · exact parseItems_of_lists

theorem parseItems_eq_error_iff {items : List String} {e : HexError} :
    parseItems items = .error e ↔ ∃ before bad after, items = before ++ bad :: after ∧
      (∃ ds, Lists before ds) ∧ IsOther bad ∧ e = ⟨Text.trim bad⟩ := by
  constructor
  · intro h
    rcases exists_lists_or_other items with
      ⟨ds, hlists⟩ | ⟨before, bad, after, rfl, ⟨ds, hlists⟩, hbad⟩
    · rw [parseItems_of_lists hlists] at h
      cases h
    · rw [parseItems_append_other hlists hbad] at h
      cases h
      exact ⟨before, bad, after, rfl, ⟨ds, hlists⟩, hbad, rfl⟩
  · rintro ⟨before, bad, after, rfl, ⟨ds, hlists⟩, hbad, rfl⟩
    exact parseItems_append_other hlists hbad

/-! ## Lists -/

/-- A list is read by its items. -/
theorem parseList_eq {text : String} {items : List String} (htext : text = ",".intercalate items)
    (hitems : ∀ item ∈ items, ',' ∉ item.toList) : parseList text = parseItems items := by
  cases items with
  | nil =>
    -- The empty text has one item, which is blank.
    have hblank : IsBlank "" := fun _ hc => absurd hc List.not_mem_nil
    rw [htext]
    exact parseItems_blank hblank []
  | cons item items =>
    have hsplit := (Text.split_eq_iff (List.cons_ne_nil item items) hitems).2 htext
    unfold parseList parseItems
    rw [hsplit]

/-- Every text is a list of some items. -/
theorem exists_items (text : String) : ∃ items : List String, text = ",".intercalate items ∧
    (∀ item ∈ items, ',' ∉ item.toList) ∧ parseList text = parseItems items :=
  ⟨Text.split ',' text, (Text.intercalate_split ',' text).symm,
    fun _ => Text.notMem_of_mem_split, rfl⟩

theorem parseList_eq_ok_iff {text : String} {ds : List ForkDigest} : parseList text = .ok ds ↔
    ∃ items, text = ",".intercalate items ∧ Lists items ds := by
  constructor
  · intro h
    obtain ⟨items, htext, -, hread⟩ := exists_items text
    rw [hread, parseItems_eq_ok_iff] at h
    exact ⟨items, htext, h⟩
  · rintro ⟨items, htext, h⟩
    rw [parseList_eq htext h.comma_notMem, parseItems_eq_ok_iff]
    exact h

theorem parseList_eq_error_iff {text : String} {e : HexError} : parseList text = .error e ↔
    ∃ before bad after, text = ",".intercalate (before ++ bad :: after) ∧
      (∀ item ∈ before ++ bad :: after, ',' ∉ item.toList) ∧ (∃ ds, Lists before ds) ∧
      IsOther bad ∧ e = ⟨Text.trim bad⟩ := by
  constructor
  · intro h
    obtain ⟨items, htext, hitems, hread⟩ := exists_items text
    rw [hread, parseItems_eq_error_iff] at h
    obtain ⟨before, bad, after, rfl, hfirst⟩ := h
    exact ⟨before, bad, after, htext, hitems, hfirst⟩
  · rintro ⟨before, bad, after, htext, hitems, hfirst⟩
    rw [parseList_eq htext hitems, parseItems_eq_error_iff]
    exact ⟨before, bad, after, rfl, hfirst⟩

theorem spells_render (d : ForkDigest) : Spells d.render d := by
  have hlower := Hex.decodeChars_eq_some_iff.1 (Hex.decodeChars_encodeChars d.bytes.toList)
  have hchars : d.render.toList = '0' :: 'x' :: Hex.encodeChars d.bytes.toList := by
    simp [render, Hex.encodeMarked, Hex.encode]
  refine ⟨_, Text.pads_self _, Hex.encodeChars d.bytes.toList, .inr hchars, hlower⟩

theorem lists_render (ds : List ForkDigest) : Lists (ds.map render) ds := by
  induction ds with
  | nil => exact .nil
  | cons d ds ih => exact .digest (spells_render d) ih

/-- A text is read as a list of digests just where it joins items that stand for them by commas;
anywhere else the error has the first item that is neither a digest nor blank. Digests that are
written one after the other are read back. -/
theorem parseList_exact (text : String) :
    (∀ ds, parseList text = .ok ds ↔ ∃ items, text = ",".intercalate items ∧ Lists items ds) ∧
      (∀ e, parseList text = .error e ↔
        ∃ before bad after, text = ",".intercalate (before ++ bad :: after) ∧
          (∀ item ∈ before ++ bad :: after, ',' ∉ item.toList) ∧ (∃ ds, Lists before ds) ∧
          IsOther bad ∧ e = ⟨Text.trim bad⟩) ∧
      ∀ ds : List ForkDigest, parseList (",".intercalate (ds.map render)) = .ok ds := by
  refine ⟨fun ds => parseList_eq_ok_iff, fun e => parseList_eq_error_iff, fun ds => ?_⟩
  rw [parseList_eq_ok_iff]
  exact ⟨_, rfl, lists_render ds⟩

end PeerCensus.ForkDigest
