import PeerCensus.Net.Address
import PeerCensus.Proofs.Net.Ip

/-!
# Peer addresses read back

The path of an address has five components between slashes, none of which has a slash in it. The
internet address may be any of its texts and the port may have leading zeros and a plus sign, so
that many paths are parsed as one address; the one that is shown for it is among them.

Results:
* `parse_eq_ok_iff`: which texts are parsed, and as what.
* `parse_render`: an address is read back from its text.
* `normal_form`: to parse and to show again gives a normal form.
-/

namespace PeerCensus

/-! ## No slashes -/

theorem slash_notMem_digits {radix : Nat} {digits : List Char}
    (h : ∀ c ∈ digits, Numeral.isDigit radix c = true) : '/' ∉ digits := by
  intro hslash
  have hnone : Numeral.digit? radix '/' = none := if_neg (Nat.lt_irrefl radix)
  have hdigit := h '/' hslash
  rw [Numeral.isDigit, hnone] at hdigit
  cases hdigit

theorem Ipv4.slash_notMem_render (ip : Ipv4) : '/' ∉ ip.render.toList := by
  have hdigits (n : Nat) : '/' ∉ Nat.toDigits 10 n := slash_notMem_digits (isDigit_toDigits n)
  simp [toList_render, hdigits]

theorem Ipv6.SpellsRow.slash_notMem {chars : List Char} {groups : List UInt16} {ended : Bool}
    (h : SpellsRow chars groups ended) : '/' ∉ chars := by
  induction h with
  | group h => exact slash_notMem_digits h.isDigit
  | ipv4 ip => exact ip.slash_notMem_render
  | cons h _ ih => simp [slash_notMem_digits h.isDigit, ih]

theorem Ipv6.SpellsGroups.slash_notMem {chars : List Char} {groups : List UInt16} {ended : Bool}
    (h : SpellsGroups chars groups ended) : '/' ∉ chars := by
  cases h with
  | nil => exact nofun
  | row row => exact row.slash_notMem

theorem Ip.Spells.slash_notMem {text : String} {ip : Ip} (h : Spells text ip) :
    '/' ∉ text.toList := by
  cases ip with
  | v4 ip =>
    rw [h]
    exact ip.slash_notMem_render
  | v6 ip =>
    revert h
    rw [Ip.Spells]
    generalize text.toList = chars
    rintro (row | @⟨_, _, _, _, _, _, _, hhead, htail⟩)
    · exact row.slash_notMem
    · simp [hhead.slash_notMem, htail.slash_notMem]

namespace Address

/-! ## Texts of an address -/

/-- Decimal digits of a port, with or without a plus sign before them. -/
def SpellsPort (text : String) (port : UInt16) : Prop :=
  ∃ digits, (text.toList = digits ∨ text.toList = '+' :: digits) ∧ digits ≠ [] ∧
    (∀ c ∈ digits, Numeral.isDigit 10 c = true) ∧ Numeral.value 10 digits = port.toNat

/-- The texts of an address: its family, any text of its internet address, its transport and any
text of its port, each after a slash. -/
def Spells (text : String) (a : Address) : Prop :=
  ∃ ip port, text = "/" ++ family a.ip ++ "/" ++ ip ++ "/" ++ a.transport.name ++ "/" ++ port ∧
    Ip.Spells ip a.ip ∧ SpellsPort port a.port

theorem spellsPort_iff {text : String} {port : UInt16} :
    SpellsPort text port ↔ Numeral.bounded? 65535 text = some port.toNat := by
  have hport : port.toNat ≤ 65535 := Nat.le_of_lt_succ port.toNat_lt
  simp only [Numeral.bounded?_eq_some_iff, SpellsPort, hport, and_true]

theorem SpellsPort.slash_notMem {text : String} {port : UInt16} (h : SpellsPort text port) :
    '/' ∉ text.toList := by
  obtain ⟨digits, htext, -, hdigits, -⟩ := h
  rcases htext with htext | htext <;> simp [htext, slash_notMem_digits hdigits]

/-- The components of a path are its pieces between the slashes. -/
theorem eq_path_iff {text family ip transport port : String} (hf : '/' ∉ family.toList)
    (hi : '/' ∉ ip.toList) (ht : '/' ∉ transport.toList) (hp : '/' ∉ port.toList) :
    text = "/" ++ family ++ "/" ++ ip ++ "/" ++ transport ++ "/" ++ port ↔
      Text.split '/' text = ["", family, ip, transport, port] := by
  rw [Text.split_eq_iff (List.cons_ne_nil _ _) (by simp [hf, hi, ht, hp])]
  have hjoin : "/" ++ family ++ "/" ++ ip ++ "/" ++ transport ++ "/" ++ port =
      (String.singleton '/').intercalate ["", family, ip, transport, port] := by
    apply String.toList_injective
    simp
  rw [hjoin]

theorem transport?_eq_some_iff {name : String} {t : Transport} :
    transport? name = some t ↔ name = t.name := by
  unfold transport?
  cases t <;> grind [Transport.name]

theorem ofComponents?_eq_some_iff {parts : List String} {a : Address} :
    ofComponents? parts = some a ↔ ∃ ip port,
      parts = ["", family a.ip, ip, a.transport.name, port] ∧
      Ip.Spells ip a.ip ∧ SpellsPort port a.port := by
  constructor
  · intro h
    unfold ofComponents? at h
    split at h
    · rename_i root familyName ip transport port
      simp only [Option.bind_eq_bind, Option.pure_def, Option.bind_none,
        Option.ite_none_left_eq_some, Option.bind_eq_some_iff, ne_eq, not_not,
        Option.some.injEq] at h
      obtain ⟨rfl, address, hip, rfl, protocol, htransport, number, hport, rfl⟩ := h
      obtain rfl := transport?_eq_some_iff.1 htransport
      have hnumber : number.toUInt16.toNat = number :=
        UInt16.toNat_ofNat_of_lt (Nat.lt_succ_of_le (Numeral.le_of_bounded? hport))
      exact ⟨ip, port, rfl, Ip.parse?_eq_some_iff.1 hip,
        spellsPort_iff.2 (by rw [hport, hnumber])⟩
    · cases h
  · rintro ⟨ip, port, rfl, hip, hport⟩
    have htransport : transport? a.transport.name = some a.transport :=
      transport?_eq_some_iff.2 rfl
    simp [ofComponents?, Ip.parse?_eq_some_iff.2 hip, spellsPort_iff.1 hport, htransport]

theorem parse_eq_ok_iff_split {text : String} {a : Address} :
    parse text = .ok a ↔ ∃ ip port,
      Text.split '/' text = ["", family a.ip, ip, a.transport.name, port] ∧
      Ip.Spells ip a.ip ∧ SpellsPort port a.port := by
  rw [← ofComponents?_eq_some_iff, parse]
  cases ofComponents? (Text.split '/' text) <;> simp

/-- A text is parsed as an address just where it is a text of this address. -/
theorem parse_eq_ok_iff {text : String} {a : Address} : parse text = .ok a ↔ Spells text a := by
  have hfamily : '/' ∉ (family a.ip).toList := by cases a.ip <;> simp [family]
  have htransport : '/' ∉ a.transport.name.toList := by
    cases a.transport <;> simp [Transport.name]
  rw [parse_eq_ok_iff_split]
  refine exists_congr fun ip => exists_congr fun port => and_congr_left fun ⟨hip, hport⟩ => ?_
  exact (eq_path_iff hfamily hip.slash_notMem htransport hport.slash_notMem).symm

theorem family_of_parse {text : String} {a : Address} (h : parse text = .ok a) :
    (Text.split '/' text)[1]? = some (family a.ip) := by
  obtain ⟨ip, port, hsplit, -⟩ := parse_eq_ok_iff_split.1 h
  rw [hsplit]
  rfl

theorem spells_render (a : Address) : Spells a.render a :=
  ⟨_, _, rfl, a.ip.spells_render,
    spellsPort_iff.2 (Numeral.bounded?_toString (Nat.le_of_lt_succ a.port.toNat_lt))⟩

theorem parse_render (a : Address) : parse a.render = .ok a :=
  parse_eq_ok_iff.2 a.spells_render

/-- Every address is read back from its text. What is parsed is any text of an address; the text
that is shown for it names the same family, stands for the same address and is shown for it
again. -/
theorem normal_form :
    (∀ a : Address, parse a.render = .ok a) ∧
      (∀ text a, parse text = .ok a ↔ Spells text a) ∧
      ∀ text a, parse text = .ok a →
        parse a.render = .ok a ∧ (parse a.render).map render = .ok a.render ∧
        (Text.split '/' text)[1]? = some (family a.ip) ∧
        (Text.split '/' a.render)[1]? = some (family a.ip) := by
  refine ⟨parse_render, fun _ _ => parse_eq_ok_iff, fun text a h => ?_⟩
  have hagain := parse_render a
  exact ⟨hagain, by rw [hagain]; rfl, family_of_parse h, family_of_parse hagain⟩

theorem normal_form_mapped :
    ∃ a : Address, parse "/ip6/0::00:FFFF:1.2.3.4/tcp/+09000" = .ok a ∧
      a.render = "/ip6/::ffff:1.2.3.4/tcp/9000" ∧ parse a.render = .ok a ∧
      (parse a.render).map render = .ok a.render := by
  have h : parse "/ip6/0::00:FFFF:1.2.3.4/tcp/+09000" =
      .ok ⟨.v6 ⟨[0, 0, 0, 0, 0, 0xffff, 0x102, 0x304], rfl⟩, 9000, .tcp⟩ := by decide +kernel
  obtain ⟨-, -, hnormal⟩ := normal_form
  obtain ⟨hparse, hagain, -⟩ := hnormal _ _ h
  exact ⟨_, h, by decide +kernel, hparse, hagain⟩

end Address

end PeerCensus
