import PeerCensus.Proofs.Net.Spelling

/-!
# Internet addresses as they are written

The text that is written for an address is one of the texts of this address, so it is read back. An
IPv6 address is written in one of three forms: with all groups, with two colons for the longest run
of zero groups, or with the octets of an IPv4 address that is mapped into it. The scan for the
longest run knows, before each group, the longest run that ends there and the first of the longest
ones so far.

Results:
* `groups_eq_longestRun`: the groups that are left out are zero.
* `Ip.spells_render`, `Ip.parse?_render`: what is written is read as the same address.
-/

namespace PeerCensus

namespace Ipv6

/-! ## The longest run of zero groups -/

/-- The groups of the run are all zero. -/
def IsRun (groups : List UInt16) (run : Run) : Prop :=
  ∀ i, run.start ≤ i → i < run.start + run.length → groups[i]? = some 0

/-- What is known when the groups before `index` have been looked at: the run that ends there, and
the longest run among them. -/
structure Scanned (groups : List UInt16) (index : Nat) (current longest : Run) : Prop where
  current_isRun : IsRun groups current
  current_end : current.length = 0 ∨ current.start + current.length = index
  longest_isRun : IsRun groups longest

namespace Scanned

variable {groups rest : List UInt16} {index : Nat} {current longest : Run}

theorem start (groups : List UInt16) : Scanned groups 0 ⟨0, 0⟩ ⟨0, 0⟩ where
  current_isRun i _ hi := absurd hi (Nat.not_lt_zero i)
  current_end := .inl rfl
  longest_isRun i _ hi := absurd hi (Nat.not_lt_zero i)

/-- A zero group makes the run before it longer by one, or begins one. -/
theorem zero {next : Run} (h : Scanned groups index current longest)
    (hzero : groups[index]? = some 0) (hlen : next.length = current.length + 1)
    (hend : next.start + next.length = index + 1) :
    Scanned groups (index + 1) next (if longest.length < next.length then next else longest) := by
  have hcurrent := h.current_end
  have hrun : IsRun groups next := by
    intro i hi hi'
    by_cases hindex : i = index
    · rw [hindex, hzero]
    · exact h.current_isRun i (by omega) (by omega)
  refine ⟨hrun, .inr hend, ?_⟩
  split
  · exact hrun
  · exact h.longest_isRun

/-- No run goes over a group that is not zero. -/
theorem nonzero (h : Scanned groups index current longest) :
    Scanned groups (index + 1) ⟨0, 0⟩ longest where
  current_isRun i _ hi := absurd hi (Nat.not_lt_zero i)
  current_end := .inl rfl
  longest_isRun := h.longest_isRun

theorem longestRunFrom (h : Scanned groups index current longest)
    (hrest : groups.drop index = rest) :
    ∃ last final, Scanned groups last final (longestRunFrom index current longest rest) := by
  induction rest generalizing index current longest with
  | nil => exact ⟨index, current, h⟩
  | cons group rest ih =>
    have hnext : groups.drop (index + 1) = rest := by
      rw [← List.drop_drop, hrest]
      rfl
    rw [Ipv6.longestRunFrom]
    split
    · rename_i hzero
      have hgroup : groups[index]? = some group := by
        rw [← List.head?_drop, hrest, List.head?_cons]
      have hend := h.current_end
      exact ih (h.zero (hzero ▸ hgroup) (by grind) (by grind)) hnext
    · exact ih h.nonzero hnext

end Scanned

theorem isRun_longestRun (ip : Ipv6) : IsRun ip.groups ip.longestRun := by
  obtain ⟨_, _, h⟩ := (Scanned.start ip.groups).longestRunFrom List.drop_zero
  exact h.longest_isRun

/-- The groups are those before the longest run, its zeros, and those after it. -/
theorem groups_eq_longestRun (ip : Ipv6) :
    ip.groups = ip.groups.take ip.longestRun.start ++ List.replicate ip.longestRun.length 0 ++
      ip.groups.drop (ip.longestRun.start + ip.longestRun.length) := by
  have hzeros : (ip.groups.drop ip.longestRun.start).take ip.longestRun.length =
      List.replicate ip.longestRun.length 0 := by
    apply List.ext_getElem?
    intro i
    rw [List.getElem?_take, List.getElem?_replicate, List.getElem?_drop]
    split
    · exact ip.isRun_longestRun _ (by omega) (by omega)
    · rfl
  rw [← hzeros, List.append_assoc, ← List.drop_drop, List.take_append_drop, List.take_append_drop]

/-! ## What the texts spell -/

theorem spellsGroup_toDigits (group : UInt16) :
    SpellsGroup (Nat.toDigits 16 group.toNat) group where
  ne_nil := Nat.toDigits_ne_nil
  length_le := (Nat.length_toDigits_le_iff (by decide) (by decide)).2 group.toNat_lt
  isDigit _ := Numeral.isDigit_of_mem_toDigits (by decide) (by decide)
  value_eq := Numeral.value_toDigits (by decide) (by decide) _

theorem spellsRow_renderGroups (group : UInt16) (groups : List UInt16) :
    SpellsRow (renderGroups (group :: groups)).toList (group :: groups) false := by
  have colon : ":".toList = [':'] := rfl
  rw [renderGroups, String.toList_intercalate, colon, List.map_map]
  induction groups generalizing group with
  | nil =>
    rw [List.map_singleton, List.intercalate_singleton, Function.comp_apply, renderGroup,
      String.toList_ofList]
    exact .group (spellsGroup_toDigits group)
  | cons next groups ih =>
    rw [List.map_cons, List.map_cons, List.intercalate_cons_cons, ← List.map_cons,
      Function.comp_apply, renderGroup, String.toList_ofList, List.append_assoc]
    exact .cons (spellsGroup_toDigits group) (ih next)

theorem spellsGroups_renderGroups (groups : List UInt16) :
    SpellsGroups (renderGroups groups).toList groups false := by
  cases groups with
  | nil => exact .nil
  | cons group groups => exact .row (spellsRow_renderGroups group groups)

/-- The groups of an address that an IPv4 address is mapped into. -/
theorem groups_of_mapped? {ip : Ipv6} {v4 : Ipv4} (h : ip.mapped? = some v4) :
    ip.groups = List.replicate 5 0 ++ 0xffff :: v4.toGroups := by
  rw [mapped?] at h
  split at h
  · rename_i high low hgroups
    cases h
    have glue (group : UInt16) :
        (256 * (group.toNat / 256).toUInt8.toNat + group.toUInt8.toNat).toUInt16 = group := by
      have hlt := group.toNat_lt
      have hhigh : (group.toNat / 256).toUInt8.toNat = group.toNat / 256 :=
        UInt8.toNat_ofNat_of_lt (by simp only [UInt8.size]; omega)
      rw [hhigh, UInt16.toNat_toUInt8, Nat.div_add_mod]
      exact UInt16.ofNat_toNat
    rw [hgroups, Ipv4.toGroups, glue, glue]
    rfl
  · cases h

theorem spells_render (ip : Ipv6) : Spells ip.render.toList ip := by
  rw [render]
  cases hmapped : ip.mapped? with
  | some v4 =>
    have hrow : SpellsRow ("ffff".toList ++ ':' :: v4.render.toList) (0xffff :: v4.toGroups) true :=
      .cons (spellsGroup_toDigits 0xffff) (.ipv4 v4)
    have htext : ("::ffff:" ++ v4.render).toList =
        [] ++ ':' :: ':' :: ("ffff".toList ++ ':' :: v4.render.toList) := by
      rw [String.toList_append]
      rfl
    rw [htext]
    exact .short .nil (.row hrow) (Nat.succ_pos 4) (groups_of_mapped? hmapped)
  | none =>
    have hgroups := ip.groups_eq_longestRun
    simp only
    split
    · simp only [String.toList_append, List.append_assoc]
      exact .short (spellsGroups_renderGroups _) (spellsGroups_renderGroups _) (by omega) hgroups
    · obtain ⟨group, groups, hall⟩ : ∃ group groups, ip.groups = group :: groups :=
        List.exists_cons_of_length_eq_add_one ip.length_groups
      have hrow : SpellsRow (renderGroups ip.groups).toList ip.groups false := by
        rw [hall]
        exact spellsRow_renderGroups group groups
      exact .whole hrow

end Ipv6

namespace Ip

theorem spells_render (ip : Ip) : Spells ip.render ip := by
  cases ip with
  | v4 ip => rfl
  | v6 ip => exact ip.spells_render

/-- An address is read back from its text. -/
theorem parse?_render (ip : Ip) : parse? ip.render = some ip :=
  parse?_eq_some_iff.2 ip.spells_render

end Ip

end PeerCensus
