import Mathlib.Data.List.Infix
import PeerCensus.Peer.Agent

/-!
# What an agent says

An agent is read off at most three fields of its text: the first one names the client, and the client
tells which ones hold the version and the platform. Two texts that agree about these are read alike,
whatever else stands in them.

A platform is searched in lower case. Lower case is a matter of all characters there are; all that is
needed of it here is where it meets ASCII, and there it makes no difference whether it is taken of
ASCII letters alone.

Results:
* `infix_lowersTo_iff`: a name occurs in a text in lower case if it does with ASCII letters lowered.
* `osOf_eq`, `clientOf_eq_iff`, `isVersion_iff`: what each of the fields says.
* `parse_by_fields`: an agent is what its three fields say, and nothing else in the text matters.
-/

namespace PeerCensus.Agent

/-! ## Lower case -/

/-- What the lower case of a character may be. Of all characters outside of ASCII only two have ASCII
letters in their lower case: the capital I with a dot, which becomes an `i` and a dot above, and the
sign of the kelvin, which becomes a `k`. -/
inductive Lowers : Char → List Char → Prop
  | ascii {c : Char} : c.toNat < 128 → Lowers c [lowerChar c]
  | dotted : Lowers '\u0130' ['i', '\u0307']
  | kelvin : Lowers '\u212a' ['k']
  | other {c d : Char} {more : List Char} : 128 ≤ c.toNat → (∀ e ∈ d :: more, 128 ≤ e.toNat) →
    Lowers c (d :: more)

/-- What the lower case of a text may be. -/
inductive LowersTo : List Char → List Char → Prop
  | nil : LowersTo [] []
  | cons {c : Char} {piece chars lowered : List Char} : Lowers c piece → LowersTo chars lowered →
    LowersTo (c :: chars) (piece ++ lowered)

/-- Whether no character outside of ASCII helps to spell `name` in lower case. -/
def Plain (name : List Char) : Prop :=
  (∀ c ∈ name, c.toNat < 128 ∧ c ≠ 'k') ∧ name.getLast? ≠ some 'i'

instance (name : List Char) : Decidable (Plain name) :=
  @instDecidableAnd _ _ (List.decidableBAll _ name) inferInstance

theorem lowerChar_of_le {c : Char} (h : 128 ≤ c.toNat) : lowerChar c = c := by
  rw [lowerChar, if_neg]
  rintro ⟨-, hz⟩
  have : c.toNat ≤ 'Z'.toNat := hz
  exact absurd (Nat.le_trans h this) (by decide)

/-- Lowering the letters of ASCII alone is one way to lower a text. -/
theorem lowersTo_lower (chars : List Char) : LowersTo chars (lower chars) := by
  induction chars with
  | nil => exact .nil
  | cons c chars ih =>
    have first : Lowers c [lowerChar c] := by
      by_cases h : c.toNat < 128
      · exact .ascii h
      · have outside : 128 ≤ c.toNat := Nat.le_of_not_lt h
        rw [lowerChar_of_le outside]
        exact .other outside (by simpa using outside)
    exact .cons first ih

theorem Plain.tail {c : Char} {name : List Char} (h : Plain (c :: name)) : Plain name := by
  refine ⟨fun d hd => h.1 d (List.mem_cons_of_mem c hd), fun hlast => h.2 ?_⟩
  rw [List.getLast?_cons, hlast]
  rfl

theorem Plain.toNat_lt {c : Char} {name : List Char} (h : Plain (c :: name)) : c.toNat < 128 :=
  (h.1 c List.mem_cons_self).1

/-- A plain name does not begin with a character outside of ASCII. -/
theorem Plain.not_prefix {d : Char} {name rest : List Char} (h : Plain name) (hne : name ≠ [])
    (hd : 128 ≤ d.toNat) : ¬ name <+: d :: rest := by
  cases name with
  | nil => exact absurd rfl hne
  | cons c name =>
    rw [List.cons_prefix_cons]
    rintro ⟨rfl, -⟩
    exact Nat.not_le.2 h.toNat_lt hd

/-- A plain name does not begin with what a character outside of ASCII becomes. -/
theorem Lowers.not_prefix {c : Char} {name piece rest : List Char} (h : Lowers c piece)
    (hc : 128 ≤ c.toNat) (hname : Plain name) (hne : name ≠ []) : ¬ name <+: piece ++ rest := by
  cases name with
  | nil => exact absurd rfl hne
  | cons x name =>
    cases h with
    | ascii hlt => exact absurd hc (Nat.not_le.2 hlt)
    | dotted =>
      rw [List.cons_append, List.cons_prefix_cons]
      rintro ⟨rfl, hprefix⟩
      -- the dot above follows the `i`, and no plain name ends with an `i`
      refine hname.tail.not_prefix ?_ (by decide) hprefix
      rintro rfl
      exact hname.2 rfl
    | kelvin =>
      rw [List.cons_append, List.cons_prefix_cons]
      rintro ⟨rfl, -⟩
      exact (hname.1 _ List.mem_cons_self).2 rfl
    | other _ houtside =>
      exact hname.not_prefix hne (houtside _ List.mem_cons_self)

/-- A plain name begins a text in lower case if it does with ASCII letters lowered. -/
theorem prefix_lowersTo_iff {name chars lowered : List Char} (h : LowersTo chars lowered)
    (hname : Plain name) : name <+: lowered ↔ name <+: lower chars := by
  induction h generalizing name with
  | nil => rfl
  | @cons c piece chars lowered hc _ ih =>
    cases name with
    | nil => simp
    | cons x name =>
      by_cases hlt : c.toNat < 128
      · have hpiece : piece = [lowerChar c] := by
          cases hc with
          | ascii => rfl
          | dotted => exact absurd hlt (by decide)
          | kelvin => exact absurd hlt (by decide)
          | other hle => exact absurd hlt (Nat.not_lt.2 hle)
        rw [hpiece, List.singleton_append, List.cons_prefix_cons, ih hname.tail,
          ← List.cons_prefix_cons]
        rfl
      · have outside : 128 ≤ c.toNat := Nat.le_of_not_lt hlt
        have hlower : lower (c :: chars) = c :: lower chars :=
          congrArg (· :: lower chars) (lowerChar_of_le outside)
        rw [hlower]
        exact iff_of_false (hc.not_prefix outside hname (List.cons_ne_nil _ _))
          (hname.not_prefix (List.cons_ne_nil _ _) outside)

/-- Characters outside of ASCII are passed over in search of a plain name. -/
theorem infix_append_iff {name piece rest : List Char} (hname : Plain name) (hne : name ≠ [])
    (houtside : ∀ c ∈ piece, 128 ≤ c.toNat) : name <:+: piece ++ rest ↔ name <:+: rest := by
  induction piece with
  | nil => rfl
  | cons c piece ih =>
    obtain ⟨hc, hpiece⟩ := List.forall_mem_cons.1 houtside
    rw [List.cons_append, List.infix_cons_iff, ih hpiece]
    exact or_iff_right (hname.not_prefix hne hc)

theorem Lowers.exists_cons {c : Char} {piece : List Char} (h : Lowers c piece) :
    ∃ d more, piece = d :: more ∧ ∀ e ∈ more, 128 ≤ e.toNat := by
  cases h with
  | ascii => exact ⟨_, [], rfl, nofun⟩
  | dotted => exact ⟨_, ['\u0307'], rfl, List.forall_mem_singleton.2 (by decide)⟩
  | kelvin => exact ⟨_, [], rfl, nofun⟩
  | other _ houtside => exact ⟨_, _, rfl, (List.forall_mem_cons.1 houtside).2⟩

/-- A plain name occurs in a text in lower case if it does with ASCII letters lowered. -/
theorem infix_lowersTo_iff {name chars lowered : List Char} (h : LowersTo chars lowered)
    (hname : Plain name) (hne : name ≠ []) : name <:+: lowered ↔ name <:+: lower chars := by
  induction h with
  | nil => rfl
  | @cons c piece chars lowered hc hrest ih =>
    have begins := prefix_lowersTo_iff (.cons hc hrest) hname
    obtain ⟨d, more, rfl, houtside⟩ := hc.exists_cons
    rw [List.cons_append] at begins ⊢
    rw [List.infix_cons_iff, begins, infix_append_iff hname hne houtside, ih, lower, List.map_cons,
      List.infix_cons_iff]
    rfl

/-! ## Platforms -/

theorem occurs_iff {part chars : List Char} : occurs part chars = true ↔ part <:+: chars := by
  induction chars with
  | nil => simp [occurs]
  | cons c rest ih =>
    rw [occurs, Bool.or_eq_true, List.isPrefixOf_iff_prefix, ih, List.infix_cons_iff]

/-- The last of the systems whose names occur in a text, if there is one. -/
def lastNamed (lowered : List Char) : Os :=
  ([.linux, .mac, .windows].filter fun os : Os => os.name.toList <:+: lowered).getLast?.getD .unknown

/-- The system of a platform is the last one that occurs in it, whatever its lower case may be. -/
theorem osOf_eq {platform : String} {lowered : List Char}
    (h : LowersTo platform.toList lowered) : osOf platform = lastNamed lowered := by
  have occurs_eq (os : Os) (hplain : Plain os.name.toList) (hne : os.name.toList ≠ []) :
      occurs os.name.toList (lower platform.toList) = decide (os.name.toList <:+: lowered) := by
    rw [Bool.eq_iff_iff, occurs_iff, decide_eq_true_eq, infix_lowersTo_iff h hplain hne]
  have linux := occurs_eq .linux (by decide) (by decide)
  have mac := occurs_eq .mac (by decide) (by decide)
  have windows := occurs_eq .windows (by decide) (by decide)
  show (if occurs Os.windows.name.toList (lower platform.toList) then Os.windows
    else if occurs Os.mac.name.toList (lower platform.toList) then .mac
    else if occurs Os.linux.name.toList (lower platform.toList) then .linux else .unknown) = _
  rw [windows, mac, linux, lastNamed]
  simp only [List.filter_cons, List.filter_nil]
  generalize decide (Os.linux.name.toList <:+: lowered) = hasLinux
  generalize decide (Os.mac.name.toList <:+: lowered) = hasMac
  generalize decide (Os.windows.name.toList <:+: lowered) = hasWindows
  cases hasLinux <;> cases hasMac <;> cases hasWindows <;> rfl

/-! ## Clients -/

theorem clientOf_congr {field field' : String} (h : lower field.toList = lower field'.toList) :
    clientOf field = clientOf field' := by
  rw [clientOf, clientOf, h]

/-- No name belongs to two clients. -/
theorem eq_of_mem_aliases {c c' : Client} {name name' : String} (h : name ∈ c.aliases)
    (h' : name' ∈ c'.aliases) (same : lower name.toList = lower name'.toList) : c = c' := by
  have distinct : ∀ c ∈ Client.all, ∀ c' ∈ Client.all, c ≠ c' →
      ∀ name ∈ c.aliases, ∀ name' ∈ c'.aliases, lower name.toList ≠ lower name'.toList := by
    decide
  by_contra hne
  exact distinct c c.mem_all c' c'.mem_all hne name h name' h' same

/-- Whether a client goes by the field, but for the case of ASCII letters. -/
def goesBy (field : String) (c : Client) : Bool :=
  c.aliases.any fun name => lower name.toList == lower field.toList

theorem goesBy_iff {field : String} {c : Client} :
    goesBy field c = true ↔ ∃ name ∈ c.aliases, lower name.toList = lower field.toList := by
  simp [goesBy]

theorem clientOf_eq (field : String) :
    clientOf field = (Client.all.find? (goesBy field)).getD .others := rfl

/-- A field is of a known client if it is one of its names, but for the case of ASCII letters. -/
theorem clientOf_eq_iff {field : String} {c : Client} (hc : c ≠ .others) :
    clientOf field = c ↔ ∃ name ∈ c.aliases, lower name.toList = lower field.toList := by
  rw [clientOf_eq, ← goesBy_iff]
  cases hfound : Client.all.find? (goesBy field) with
  | none =>
    have unnamed : ¬ goesBy field c = true := List.find?_eq_none.1 hfound c c.mem_all
    exact iff_of_false hc.symm unnamed
  | some found =>
    have named : goesBy field found = true := List.find?_some hfound
    constructor
    · rintro rfl
      exact named
    · intro h
      obtain ⟨name, hname, heq⟩ := goesBy_iff.1 h
      obtain ⟨name', hname', heq'⟩ := goesBy_iff.1 named
      exact eq_of_mem_aliases hname' hname (heq'.trans heq.symm)

/-! ## Versions -/

/-- Whether `version` is what stands in a field before the first hyphen or plus sign, or unknown if
nothing does. -/
def IsVersion (field version : String) : Prop :=
  ∃ part rest : List Char, field.toList = part ++ rest ∧ (∀ c ∈ part, c ≠ '-' ∧ c ≠ '+') ∧
    (∀ c, rest.head? = some c → c = '-' ∨ c = '+') ∧
    version = if part = [] then "unknown" else String.ofList part

/-- A field has one version. -/
theorem isVersion_iff {field version : String} :
    IsVersion field version ↔ version = versionOf field := by
  constructor
  · rintro ⟨part, rest, hfield, hpart, hrest, rfl⟩
    have before : field.toList.takeWhile (fun c => c ≠ '-' ∧ c ≠ '+') = part := by
      rw [hfield, List.takeWhile_append_of_pos fun c hc => decide_eq_true (hpart c hc)]
      cases rest with
      | nil => simp
      | cons c rest => rcases hrest c rfl with rfl | rfl <;> simp
    rw [versionOf, before]
    rfl
  · rintro rfl
    refine ⟨_, _, List.takeWhile_append_dropWhile.symm, ?_, ?_, rfl⟩
    · intro c hc
      exact of_decide_eq_true (List.all_eq_true.1 List.all_takeWhile c hc)
    · intro c hc
      have hnot := List.head?_dropWhile_not (fun c => decide (c ≠ '-' ∧ c ≠ '+')) field.toList
      rw [hc] at hnot
      simpa [or_iff_not_imp_left] using hnot

theorem versionOf_ne_empty (field : String) : versionOf field ≠ "" := by
  rw [versionOf]
  split
  · decide
  · rename_i hne
    exact fun h => hne (by simpa using congrArg String.toList h)

/-- A version is made of characters of its field, none of which separates it from a suffix. -/
theorem mem_versionOf {field : String} {c : Char} (h : c ∈ (versionOf field).toList) :
    c ≠ '-' ∧ c ≠ '+' ∧ (c ∈ field.toList ∨ c ∈ unknownVersion.toList) := by
  rw [versionOf] at h
  split at h
  · have plain : unknownVersion.toList.all (fun c => c ≠ '-' ∧ c ≠ '+') := by decide
    have hc := of_decide_eq_true (List.all_eq_true.1 plain c h)
    exact ⟨hc.1, hc.2, .inr h⟩
  · rw [String.toList_ofList] at h
    have hc := of_decide_eq_true (List.all_eq_true.1 List.all_takeWhile c h)
    exact ⟨hc.1, hc.2, .inl (List.takeWhile_subset _ h)⟩

/-! ## Agents -/

/-- The field of a text at an index; a field that is missing is empty. -/
def field (text : String) (i : Nat) : String :=
  (Text.split '/' text).getD i ""

theorem slash_notMem_field (text : String) (i : Nat) : '/' ∉ (field text i).toList := by
  rw [field, List.getD_eq_getElem?_getD]
  cases h : (Text.split '/' text)[i]? with
  | none => decide
  | some piece => exact Text.notMem_of_mem_split (List.mem_of_getElem? h)

/-- The field of the version of a client's agent: the third one for teku and the second one for all
others. -/
def versionText (client : Client) (field : Nat → String) : String :=
  if client = .teku then field 2 else field 1

/-- The field of the platform of a client's agent: none for prysm, the fourth one for teku and the
third one for all others. -/
def platformText (client : Client) (field : Nat → String) : String :=
  if client = .prysm then "" else if client = .teku then field 3 else field 2

/-- Whether the fields of a text say what the agent is. -/
structure Says (field : Nat → String) (a : Agent) : Prop where
  /-- The first field is a name of the client, but for the case of ASCII letters, unless it is the name
  of none. -/
  client : ∀ c, c ≠ .others →
    (a.client = c ↔ ∃ name ∈ c.aliases, lower name.toList = lower (field 0).toList)
  version : IsVersion (versionText a.client field) a.version
  /-- The system is the last one that occurs in the platform in lower case. -/
  os : ∀ lowered, LowersTo (platformText a.client field).toList lowered → a.os = lastNamed lowered

theorem versionText_eq (client : Client) (field : Nat → String) :
    versionText client field = field client.versionField := by
  cases client <;> rfl

theorem platformText_eq (client : Client) (field : Nat → String) :
    platformText client field = (client.platformField?.map field).getD "" := by
  cases client <;> rfl

theorem client_parse (text : String) : (parse text).client = clientOf (field text 0) := by
  rw [parse_client, field]

theorem version_parse (text : String) :
    (parse text).version = versionOf (versionText (parse text).client (field text)) := by
  rw [versionText_eq, parse, field]

theorem os_parse (text : String) :
    (parse text).os = osOf (platformText (parse text).client (field text)) := by
  have missing (place : Option Nat) :
      (place.bind fun i => (Text.split '/' text)[i]?).getD "" = (place.map (field text)).getD "" := by
    cases place with
    | none => rfl
    | some i => exact List.getD_eq_getElem?_getD.symm
  rw [platformText_eq, ← missing, parse]

theorem ext {a b : Agent} (client : a.client = b.client) (version : a.version = b.version)
    (os : a.os = b.os) : a = b := by
  cases a
  cases b
  simp_all

/-- What the fields of a text say is what is read. -/
theorem says_parse (text : String) : Says (field text) (parse text) where
  client c hc := by
    rw [client_parse]
    exact clientOf_eq_iff hc
  version := isVersion_iff.2 (version_parse text)
  os lowered h := by rw [os_parse, osOf_eq h]

/-- The fields of a text say one thing. -/
theorem Says.eq {field : Nat → String} {a b : Agent} (ha : Says field a) (hb : Says field b) :
    a = b := by
  have hclient : a.client = b.client := by
    by_cases hc : a.client = .others
    · by_contra hne
      have known : b.client ≠ .others := fun h => hne (hc.trans h.symm)
      exact hne ((ha.client _ known).2 ((hb.client _ known).1 rfl))
    · exact ((hb.client _ hc).2 ((ha.client _ hc).1 rfl)).symm
  apply Agent.ext hclient
  · rw [isVersion_iff.1 ha.version, isVersion_iff.1 hb.version, hclient]
  · rw [ha.os _ (lowersTo_lower _), hb.os _ (lowersTo_lower _), hclient]

/-- An agent is what three fields of its text say: the first one, of which the case of ASCII letters
does not matter, and the two that hold the version and the platform of that client. Nothing else in
the text matters. The version is never empty, and made of none of the characters that separate. -/
theorem parse_by_fields (text : String) :
    (∀ a, a = parse text ↔ Says (field text) a) ∧
      (∀ other : String, lower (field other 0).toList = lower (field text 0).toList →
        (parse other).client = (parse text).client) ∧
      (∀ other : String, lower (field other 0).toList = lower (field text 0).toList →
        versionText (parse text).client (field other) =
          versionText (parse text).client (field text) →
        platformText (parse text).client (field other) =
          platformText (parse text).client (field text) → parse other = parse text) ∧
      (parse text).version ≠ "" ∧
      ∀ c ∈ (parse text).version.toList, c ≠ '/' ∧ c ≠ '-' ∧ c ≠ '+' := by
  have same_client (other : String) (h : lower (field other 0).toList = lower (field text 0).toList) :
      (parse other).client = (parse text).client := by
    rw [client_parse, client_parse, clientOf_congr h]
  refine ⟨fun a => ⟨?_, fun h => h.eq (says_parse text)⟩, same_client, ?_, ?_, ?_⟩
  · rintro rfl
    exact says_parse text
  · intro other hfirst hversion hplatform
    have hclient := same_client other hfirst
    apply Agent.ext hclient
    · rw [version_parse, version_parse text, hclient, hversion]
    · rw [os_parse, os_parse text, hclient, hplatform]
  · rw [version_parse]
    exact versionOf_ne_empty _
  · intro c hc
    rw [version_parse, versionText_eq] at hc
    obtain ⟨hhyphen, hplus, hmem⟩ := mem_versionOf hc
    refine ⟨?_, hhyphen, hplus⟩
    rintro rfl
    rcases hmem with hmem | hmem
    · exact slash_notMem_field text _ hmem
    · exact absurd hmem (by decide)

/-- For teku neither capitals in its name, nor its second field, nor a fifth one make a difference. -/
theorem parse_by_fields_shouted :
    lower (field "TEKU/x/v23.1.0-9/Linux/mac" 0).toList =
        lower (field "teku/teku/v23.1.0-9/Linux" 0).toList ∧
      parse "TEKU/x/v23.1.0-9/Linux/mac" = parse "teku/teku/v23.1.0-9/Linux" ∧
      parse "teku/teku/v23.1.0-9/Linux" = ⟨.teku, "v23.1.0", .linux⟩ := by
  have hfirst : lower (field "TEKU/x/v23.1.0-9/Linux/mac" 0).toList =
      lower (field "teku/teku/v23.1.0-9/Linux" 0).toList := by decide +kernel
  have hparse : parse "teku/teku/v23.1.0-9/Linux" = ⟨.teku, "v23.1.0", .linux⟩ := by decide +kernel
  refine ⟨hfirst, ?_, hparse⟩
  obtain ⟨-, -, agree, -⟩ := parse_by_fields "teku/teku/v23.1.0-9/Linux"
  rw [hparse] at agree ⊢
  exact agree _ hfirst (by decide +kernel) (by decide +kernel)

end PeerCensus.Agent
