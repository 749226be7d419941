import PeerCensus.Net.Ip
import PeerCensus.Proofs.Text.Numeral

/-!
# Which texts are internet addresses

An IPv4 address has one text. An IPv6 address has many: groups may have leading zeros and capital
letters, any zero groups may be left out between two colons, and the last two groups may be an IPv4
address. The readers never go back over what they have read, and still find every one of these
texts: what comes after a group, or after a row of groups, tells where it ends, and no row that
fills an IPv6 address begins with an IPv4 address.

Results:
* `Ipv4.read_eq_some_iff`, `Ipv6.read_eq_some_nil_iff`: what each reader accepts.
* `Ip.parse?_eq_some_iff`: a text is read as an address just where it spells this address.
-/

namespace PeerCensus

open Numeral (Stops)

namespace Ipv4

/-! ## Four octets -/

theorem toList_render (ip : Ipv4) :
    ip.render.toList =
      Nat.toDigits 10 ip.octets.1.toNat ++ '.' :: (Nat.toDigits 10 ip.octets.2.1.toNat ++
        '.' :: (Nat.toDigits 10 ip.octets.2.2.1.toNat ++
          '.' :: Nat.toDigits 10 ip.octets.2.2.2.toNat)) := by
  have dot : ".".toList = ['.'] := rfl
  simp only [render, toList, String.toList_intercalate, List.map_cons, List.map_nil,
    Nat.toString_eq_ofList_toDigits, String.toList_ofList, dot, List.intercalate_cons_cons,
    List.intercalate_singleton, List.append_assoc, List.singleton_append]

theorem isDigit_toDigits (n : Nat) : ∀ c ∈ Nat.toDigits 10 n, Numeral.isDigit 10 c = true :=
  fun _ => Numeral.isDigit_of_mem_toDigits (by decide) (by decide)

theorem skip_eq_some_iff {c : Char} {chars rest : List Char} :
    skip c chars = some rest ↔ chars = c :: rest := by
  cases chars with
  | nil => exact ⟨nofun, nofun⟩
  | cons d chars => simp [skip]

theorem readOctet_eq_some_iff {chars rest : List Char} {octet : UInt8} :
    readOctet chars = some (octet, rest) ↔
      chars = Nat.toDigits 10 octet.toNat ++ rest ∧ Stops 10 rest := by
  constructor
  · intro h
    obtain ⟨hchars, hdigits, hstops⟩ := Numeral.takeWhile_dropWhile_digits 10 chars
    unfold readOctet at h
    generalize chars.takeWhile (Numeral.isDigit 10) = digits at h hchars hdigits
    simp only [Option.ite_none_left_eq_some, Option.some.injEq, Prod.mk.injEq, not_or] at h
    obtain ⟨⟨hne, -, hzero, hbound⟩, hoctet, hrest⟩ := h
    subst hoctet hrest
    have hlead : digits.head? = some '0' → digits.length = 1 := by
      intro hhead
      have hpos := List.length_pos_iff.2 hne
      have hlen := not_and.1 hzero hhead
      omega
    have hvalue : (Numeral.value 10 digits).toUInt8.toNat = Numeral.value 10 digits :=
      UInt8.toNat_ofNat_of_lt' (by simp only [UInt8.size]; omega)
    rw [hvalue, Numeral.toDigits_value hdigits hne hlead]
    exact ⟨hchars, hstops⟩
  · rintro ⟨rfl, hstops⟩
    have hlt := octet.toNat_lt
    have hlen : (Nat.toDigits 10 octet.toNat).length ≤ 3 :=
      (Nat.length_toDigits_le_iff (by decide) (by decide)).2 (by omega)
    obtain ⟨htake, hdrop⟩ :=
      Numeral.takeWhile_dropWhile_append (isDigit_toDigits octet.toNat) hstops
    rw [readOctet, htake, hdrop, Numeral.value_toDigits (by decide) (by decide), if_neg]
    · exact congrArg (fun o => some (o, rest)) UInt8.ofNat_toNat
    · rintro (hnil | hlong | ⟨hzero, hlong⟩ | hbig)
      · exact Nat.toDigits_ne_nil hnil
      · omega
      · rw [Numeral.head?_toDigits_eq_zero_iff (by decide) (by decide)] at hzero
        rw [hzero, Nat.toDigits_zero] at hlong
        exact absurd hlong (by decide)
      · omega

/-- An address has one text only. -/
theorem read_eq_some_iff {chars rest : List Char} {ip : Ipv4} :
    read chars = some (ip, rest) ↔ chars = ip.render.toList ++ rest ∧ Stops 10 rest := by
  have dot (chars : List Char) : Stops 10 ('.' :: chars) := Numeral.stops_cons chars rfl
  simp only [read, Option.bind_eq_bind, Option.bind_eq_some_iff, Prod.exists,
    readOctet_eq_some_iff, skip_eq_some_iff, Option.pure_def, Option.some.injEq, Prod.mk.injEq,
    toList_render, List.append_assoc, List.cons_append]
  constructor
  · rintro ⟨a, _, ⟨rfl, -⟩, _, rfl, b, _, ⟨rfl, -⟩, _, rfl, c, _, ⟨rfl, -⟩, _, rfl, d, _,
      ⟨rfl, hstops⟩, rfl, rfl⟩
    exact ⟨rfl, hstops⟩
  · rintro ⟨rfl, hstops⟩
    exact ⟨_, _, ⟨rfl, dot _⟩, _, rfl, _, _, ⟨rfl, dot _⟩, _, rfl, _, _, ⟨rfl, dot _⟩, _, rfl, _, _,
      ⟨rfl, hstops⟩, rfl, rfl⟩

/-- Behind the first digits of an address there is a dot. -/
theorem dot_of_read {chars rest : List Char} {ip : Ipv4} (h : read chars = some (ip, rest)) :
    (chars.dropWhile (Numeral.isDigit 10)).head? = some '.' := by
  have dot (chars : List Char) : Stops 10 ('.' :: chars) := Numeral.stops_cons chars rfl
  rw [(read_eq_some_iff.1 h).1, toList_render, List.append_assoc, List.cons_append,
    (Numeral.takeWhile_dropWhile_append (isDigit_toDigits _) (dot _)).2]
  rfl

end Ipv4

namespace Ipv6

/-! ## Groups -/

/-- One to four hexadecimal digits of a group, of either case. -/
structure SpellsGroup (digits : List Char) (group : UInt16) : Prop where
  ne_nil : digits ≠ []
  length_le : digits.length ≤ 4
  isDigit : ∀ c ∈ digits, Numeral.isDigit 16 c = true
  value_eq : Numeral.value 16 digits = group.toNat

/-- Groups with a colon between each two of them, and whether the last two groups are written as an
IPv4 address. -/
inductive SpellsRow : List Char → List UInt16 → Bool → Prop
  | group {digits group} (h : SpellsGroup digits group) : SpellsRow digits [group] false
  | ipv4 (ip : Ipv4) : SpellsRow ip.render.toList ip.toGroups true
  | cons {digits group chars groups ended} (h : SpellsGroup digits group)
      (row : SpellsRow chars groups ended) :
      SpellsRow (digits ++ ':' :: chars) (group :: groups) ended

/-- A row that may have no groups. -/
inductive SpellsGroups : List Char → List UInt16 → Bool → Prop
  | nil : SpellsGroups [] [] false
  | row {chars groups ended} (row : SpellsRow chars groups ended) :
      SpellsGroups chars groups ended

/-- The texts of an address: a row of all its groups, or two rows with two colons between them for
one or more zero groups, of which only the second may end in an IPv4 address. -/
inductive Spells : List Char → Ipv6 → Prop
  | whole {chars ended} {ip : Ipv6} (row : SpellsRow chars ip.groups ended) : Spells chars ip
  | short {before after head tail zeros ended} {ip : Ipv6} (hhead : SpellsGroups before head false)
      (htail : SpellsGroups after tail ended) (hzeros : 0 < zeros)
      (hgroups : ip.groups = head ++ List.replicate zeros 0 ++ tail) :
      Spells (before ++ ':' :: ':' :: after) ip

theorem readGroup_eq_some_iff {chars rest : List Char} {group : UInt16} :
    readGroup chars = some (group, rest) ↔
      ∃ digits, chars = digits ++ rest ∧ SpellsGroup digits group ∧ Stops 16 rest := by
  constructor
  · intro h
    obtain ⟨hchars, hdigits, hstops⟩ := Numeral.takeWhile_dropWhile_digits 16 chars
    unfold readGroup at h
    generalize chars.takeWhile (Numeral.isDigit 16) = digits at h hchars hdigits
    simp only [Option.ite_none_left_eq_some, Option.some.injEq, Prod.mk.injEq, not_or,
      not_lt] at h
    obtain ⟨⟨hne, hlen⟩, hgroup, hrest⟩ := h
    subst hgroup hrest
    have hbound : Numeral.value 16 digits < 2 ^ 16 :=
      calc Numeral.value 16 digits
          < 16 ^ digits.length := Numeral.value_lt_pow (by decide) digits
        _ ≤ 16 ^ 4 := Nat.pow_le_pow_right (by decide) hlen
    exact ⟨digits, hchars, ⟨hne, hlen, hdigits, (UInt16.toNat_ofNat_of_lt' hbound).symm⟩, hstops⟩
  · rintro ⟨digits, rfl, h, hstops⟩
    obtain ⟨htake, hdrop⟩ := Numeral.takeWhile_dropWhile_append h.isDigit hstops
    rw [readGroup, htake, hdrop, h.value_eq, if_neg]
    · exact congrArg (fun g => some (g, rest)) UInt16.ofNat_toNat
    · exact not_or.2 ⟨h.ne_nil, Nat.not_lt.2 h.length_le⟩

/-- What may come after a group: nothing, or a colon. -/
def Parted (rest : List Char) : Prop :=
  ∀ c ∈ rest.head?, c = ':'

theorem parted_cons (rest : List Char) : Parted (':' :: rest) := by
  rintro _ ⟨⟩
  rfl

theorem Parted.stops {rest : List Char} (h : Parted rest) (radix : Nat) : Stops radix rest := by
  intro c hc
  have hcolon : Numeral.digit? radix ':' = none := if_neg (Nat.lt_irrefl radix)
  rw [h c hc, Numeral.isDigit, hcolon, Option.isSome_none]

theorem head?_dropWhile_ne_dot {digits rest : List Char} (h : ∀ c ∈ digits, c ≠ '.')
    (hrest : Parted rest) :
    ((digits ++ rest).dropWhile (Numeral.isDigit 10)).head? ≠ some '.' := by
  induction digits with
  | nil =>
    cases rest with
    | nil => exact nofun
    | cons c rest =>
      obtain rfl := hrest c rfl
      intro hdot
      have : some ':' = some '.' := hdot
      cases this
  | cons c digits ih =>
    rw [List.cons_append, List.dropWhile_cons]
    split
    · exact ih fun d hd => h d (List.mem_cons_of_mem _ hd)
    · exact fun hdot => h c List.mem_cons_self (Option.some.inj hdot)

/-- The digits of a group are not taken for an octet. -/
theorem SpellsGroup.read_ipv4 {digits rest : List Char} {group : UInt16}
    (h : SpellsGroup digits group) (hrest : Parted rest) : Ipv4.read (digits ++ rest) = none := by
  have undotted : ∀ c ∈ digits, c ≠ '.' := by
    rintro _ hc rfl
    exact absurd (h.isDigit _ hc) (by decide)
  exact Option.eq_none_iff_forall_ne_some.2 fun _ hread =>
    head?_dropWhile_ne_dot undotted hrest (Ipv4.dot_of_read hread)

/-! ## Rows -/

/-- What may come after a row: nothing, or two colons. -/
def Closes (rest : List Char) : Prop :=
  rest = [] ∨ ∃ tail, rest = ':' :: ':' :: tail

theorem Closes.parted {rest : List Char} (h : Closes rest) : Parted rest := by
  rcases h with rfl | ⟨tail, rfl⟩
  · exact nofun
  · exact parted_cons _

theorem readGroups_of_closes (slots : Nat) (first : Bool) {rest : List Char} (h : Closes rest) :
    readGroups slots first rest = ([], false, rest) := by
  cases slots with
  | zero => rfl
  | succ slots =>
    have hread : (afterSeparator first rest).bind Ipv4.read = none ∧
        (afterSeparator first rest).bind readGroup = none := by
      rcases h with rfl | ⟨tail, rfl⟩ <;> cases first <;> exact ⟨rfl, rfl⟩
    rw [readGroups, hread.1, hread.2, ite_self]

theorem SpellsGroup.readGroups {slots : Nat} {first : Bool} {chars digits rest : List Char}
    {group : UInt16} (h : SpellsGroup digits group) (hrest : Parted rest)
    (hsep : afterSeparator first chars = some (digits ++ rest)) :
    readGroups (slots + 1) first chars =
      (group :: (readGroups slots false rest).1, (readGroups slots false rest).2) := by
  rw [Ipv6.readGroups, hsep, Option.bind_some, Option.bind_some, h.read_ipv4 hrest,
    readGroup_eq_some_iff.2 ⟨digits, rfl, h, hrest.stops 16⟩, ite_self]

/-- A row is read as its groups, however many more could follow. -/
theorem SpellsRow.readGroups {slots : Nat} {first ended : Bool} {chars row rest : List Char}
    {groups : List UInt16} (h : SpellsRow row groups ended) (hrest : Closes rest)
    (hlen : groups.length ≤ slots) (hsep : afterSeparator first chars = some (row ++ rest)) :
    readGroups slots first chars = (groups, ended, rest) := by
  -- what comes before the row is general, since it is a colon once one group has been read
  induction h generalizing slots first chars with
  | group h =>
    obtain ⟨slots, rfl⟩ := Nat.exists_eq_succ_of_ne_zero (Nat.ne_zero_of_lt hlen)
    rw [h.readGroups hrest.parted hsep, readGroups_of_closes slots false hrest]
  | ipv4 ip =>
    obtain ⟨slots, rfl⟩ : ∃ k, slots = k + 2 := Nat.exists_eq_add_of_le' hlen
    have hread : Ipv4.read (ip.render.toList ++ rest) = some (ip, rest) :=
      Ipv4.read_eq_some_iff.2 ⟨rfl, hrest.parted.stops 10⟩
    rw [Ipv6.readGroups, if_neg (Nat.succ_ne_zero slots), hsep, Option.bind_some, hread]
  | cons h row ih =>
    obtain ⟨slots, rfl⟩ := Nat.exists_eq_succ_of_ne_zero (Nat.ne_zero_of_lt hlen)
    rw [List.append_assoc] at hsep
    rw [h.readGroups (parted_cons _) hsep, ih (Nat.le_of_succ_le_succ hlen) rfl]

theorem afterSeparator_false_eq_some_iff {chars rest : List Char} :
    afterSeparator false chars = some rest ↔ chars = ':' :: rest :=
  Ipv4.skip_eq_some_iff

/-- The groups that are read make a row. -/
theorem spellsRow_of_readGroups {slots : Nat} {first ended : Bool} {chars rest : List Char}
    {groups : List UInt16} (h : readGroups slots first chars = (groups, ended, rest)) :
    groups.length ≤ slots ∧ (groups = [] ∧ ended = false ∧ rest = chars ∨
      ∃ row, afterSeparator first chars = some (row ++ rest) ∧ SpellsRow row groups ended) := by
  induction slots generalizing first chars groups ended rest with
  | zero =>
    cases h
    exact ⟨Nat.le_refl 0, .inl ⟨rfl, rfl, rfl⟩⟩
  | succ slots ih =>
    rw [Ipv6.readGroups] at h
    split at h
    · -- an IPv4 address, for which two groups are left
      rename_i ip after hread
      cases h
      obtain ⟨hslots, hread⟩ := Option.ite_none_left_eq_some.1 hread
      obtain ⟨text, hsep, hread⟩ := Option.bind_eq_some_iff.1 hread
      rw [(Ipv4.read_eq_some_iff.1 hread).1] at hsep
      exact ⟨show 2 ≤ slots + 1 by omega, .inr ⟨_, hsep, .ipv4 ip⟩⟩
    · split at h
      · cases h
        exact ⟨Nat.zero_le _, .inl ⟨rfl, rfl, rfl⟩⟩
      · rename_i group after hread
        obtain ⟨text, hsep, hread⟩ := Option.bind_eq_some_iff.1 hread
        obtain ⟨digits, rfl, hdigits, -⟩ := readGroup_eq_some_iff.1 hread
        obtain ⟨more, ended', rest', hmore⟩ : ∃ g e r, readGroups slots false after = (g, e, r) :=
          ⟨_, _, _, rfl⟩
        rw [hmore] at h
        cases h
        obtain ⟨hlen, hrow⟩ := ih hmore
        refine ⟨Nat.succ_le_succ hlen, .inr ?_⟩
        rcases hrow with ⟨rfl, rfl, rfl⟩ | ⟨row, hafter, hrow⟩
        · exact ⟨digits, hsep, .group hdigits⟩
        · rw [afterSeparator_false_eq_some_iff] at hafter
          rw [hafter] at hsep
          exact ⟨_, by rw [hsep, List.append_assoc]; rfl, .cons hdigits hrow⟩

/-! ## Addresses -/

theorem SpellsGroups.readGroups {slots : Nat} {ended : Bool} {chars rest : List Char}
    {groups : List UInt16} (h : SpellsGroups chars groups ended) (hrest : Closes rest)
    (hlen : groups.length ≤ slots) :
    readGroups slots true (chars ++ rest) = (groups, ended, rest) := by
  cases h with
  | nil => exact readGroups_of_closes slots true hrest
  | row row => exact row.readGroups hrest hlen rfl

theorem spellsGroups_of_readGroups {slots : Nat} {ended : Bool} {chars rest : List Char}
    {groups : List UInt16} (h : Ipv6.readGroups slots true chars = (groups, ended, rest)) :
    groups.length ≤ slots ∧ ∃ row, chars = row ++ rest ∧ SpellsGroups row groups ended := by
  obtain ⟨hlen, ⟨rfl, rfl, rfl⟩ | ⟨row, hsep, hrow⟩⟩ := spellsRow_of_readGroups h
  · exact ⟨hlen, [], rfl, .nil⟩
  · exact ⟨hlen, row, Option.some.inj hsep, .row hrow⟩

theorem join?_eq_some_iff {ip : Ipv6} {head tail : List UInt16} :
    join? head tail = some ip ↔
      ip.groups = head ++ List.replicate (8 - head.length - tail.length) 0 ++ tail := by
  unfold join?
  constructor
  · intro h
    obtain ⟨hlength, h⟩ := Option.dite_none_right_eq_some.1 h
    cases h
    rfl
  · intro h
    have hlength := ip.length_groups
    rw [h] at hlength
    exact (dif_pos hlength).trans (congrArg some (by cases ip; cases h; rfl))

/-- An address is read from all its groups, or from those before and those after two colons. -/
theorem read_eq_some_iff {chars rest : List Char} {ip : Ipv6} :
    read chars = some (ip, rest) ↔
      (∃ ended, readGroups 8 true chars = (ip.groups, ended, rest)) ∨
      ∃ head after tail ended, readGroups 8 true chars = (head, false, ':' :: ':' :: after) ∧
        head.length ≠ 8 ∧ readGroups (7 - head.length) true after = (tail, ended, rest) ∧
        ip.groups = head ++ List.replicate (8 - head.length - tail.length) 0 ++ tail := by
  have hlength := ip.length_groups
  unfold read
  rcases readGroups 8 true chars with ⟨head, embedded, chars⟩
  by_cases hhead : head.length = 8
  · have hjoin : join? head [] = some ip ↔ head = ip.groups := by
      rw [join?_eq_some_iff, hhead]
      simp [eq_comm]
    dsimp only
    rw [if_pos hhead]
    simp only [Option.bind_eq_bind, Option.pure_def, Option.bind_eq_some_iff, Option.some.injEq,
      Prod.mk.injEq]
    grind
  · dsimp only
    rw [if_neg hhead]
    cases embedded with
    | true => grind
    | false =>
      simp only [Bool.false_eq_true, if_false, Option.bind_eq_bind, Option.pure_def,
        Option.bind_eq_some_iff, Ipv4.skip_eq_some_iff, join?_eq_some_iff, Option.some.injEq,
        Prod.mk.injEq]
      grind

/-- All of a text is read just where it spells the address. -/
theorem read_eq_some_nil_iff {chars : List Char} {ip : Ipv6} :
    read chars = some (ip, []) ↔ Spells chars ip := by
  have hlength := ip.length_groups
  rw [read_eq_some_iff]
  constructor
  · rintro (⟨ended, hall⟩ | ⟨head, after, tail, ended, hhead, hshort, htail, hgroups⟩)
    · obtain ⟨-, row, rfl, hrow⟩ := spellsGroups_of_readGroups hall
      rw [List.append_nil]
      generalize hgroups : ip.groups = groups at hrow hlength
      cases hrow with
      | nil => cases hlength
      | row hrow => exact .whole (hgroups ▸ hrow)
    · obtain ⟨hheadLength, before, rfl, hbefore⟩ := spellsGroups_of_readGroups hhead
      obtain ⟨htailLength, text, rfl, hafter⟩ := spellsGroups_of_readGroups htail
      rw [List.append_nil]
      exact .short hbefore hafter (by omega) hgroups
  · rintro (@⟨_, ended, _, hrow⟩ |
      @⟨before, after, head, tail, zeros, ended, _, hbefore, hafter, hzeros, hgroups⟩)
    · have hall := (SpellsGroups.row hrow).readGroups (.inl rfl) hlength.le
      rw [List.append_nil] at hall
      exact .inl ⟨ended, hall⟩
    · rw [hgroups] at hlength
      simp only [List.length_append, List.length_replicate] at hlength
      have htail := hafter.readGroups (.inl rfl) (by omega : tail.length ≤ 7 - head.length)
      rw [List.append_nil] at htail
      have hrest : 8 - head.length - tail.length = zeros := by omega
      exact .inr ⟨head, after, tail, ended, hbefore.readGroups (.inr ⟨after, rfl⟩) (by omega),
        by omega, htail, by rw [hrest, hgroups]⟩

/-- A row is not taken for an IPv4 address unless it is one. -/
theorem SpellsRow.read_ipv4 {row rest : List Char} {groups : List UInt16} {ended : Bool}
    (h : SpellsRow row groups ended) (hrest : Closes rest)
    (hlone : ended = false ∨ groups.length = 8) : Ipv4.read (row ++ rest) = none := by
  cases h with
  | group h => exact h.read_ipv4 hrest.parted
  | ipv4 ip => rcases hlone with h | h <;> cases h
  | cons h row =>
    rw [List.append_assoc]
    exact h.read_ipv4 (parted_cons _)

theorem Spells.read_ipv4 {chars : List Char} {ip : Ipv6} (h : Spells chars ip) :
    Ipv4.read chars = none := by
  cases h with
  | whole row =>
    rw [← List.append_nil chars]
    exact row.read_ipv4 (.inl rfl) (.inr ip.length_groups)
  | @short before after head tail zeros ended _ hbefore =>
    cases hbefore with
    | nil => rfl
    | row row => exact row.read_ipv4 (.inr ⟨after, rfl⟩) (.inl rfl)

end Ipv6

namespace Ip

/-- The texts of an address: the one text of an IPv4 address, and those of an IPv6 address. -/
def Spells (text : String) : Ip → Prop
  | v4 ip => text = ip.render
  | v6 ip => Ipv6.Spells text.toList ip

/-- A text is read as an address just where it spells this address. -/
theorem parse?_eq_some_iff {text : String} {ip : Ip} :
    parse? text = some ip ↔ Spells text ip := by
  have hv4 (ip : Ipv4) : Spells text (v4 ip) ↔ Ipv4.read text.toList = some (ip, []) := by
    rw [Ipv4.read_eq_some_iff, List.append_nil, String.toList_inj]
    exact (and_iff_left Numeral.stops_nil).symm
  have hv6 (ip : Ipv6) : Spells text (v6 ip) ↔ Ipv6.read text.toList = some (ip, []) :=
    Ipv6.read_eq_some_nil_iff.symm
  unfold parse?
  constructor
  · intro h
    split at h
    · rename_i hread
      obtain ⟨rfl, h⟩ := Option.ite_none_right_eq_some.1 h
      cases h
      exact (hv4 _).2 hread
    · split at h
      · rename_i hread
        obtain ⟨rfl, h⟩ := Option.ite_none_right_eq_some.1 h
        cases h
        exact (hv6 _).2 hread
      · cases h
  · intro h
    cases ip with
    | v4 ip => rw [(hv4 ip).1 h]; exact if_pos rfl
    | v6 ip => rw [Ipv6.Spells.read_ipv4 h, (hv6 ip).1 h]; exact if_pos rfl

end Ip

end PeerCensus
