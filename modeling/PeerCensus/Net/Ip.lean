import PeerCensus.Text.Numeral

/-!
# Internet addresses

IPv4 addresses as four decimal octets without leading zeros, IPv6 addresses as eight groups of up to
four hexadecimal digits with at most one `::` for one or more zero groups, whose last two groups may
be written as an IPv4 address. Written out, the longest run of at least two zero groups becomes
`::` (the first of equally long ones), and an IPv4 address mapped into `::ffff:0:0/96` shows its
octets.
-/

namespace PeerCensus

/-- An IPv4 address. -/
structure Ipv4 where
  /-- The four octets, the most significant first. -/
  octets : UInt8 × UInt8 × UInt8 × UInt8
  deriving DecidableEq, Hashable, Inhabited

/-- An IPv6 address. -/
structure Ipv6 where
  /-- The eight groups of sixteen bits, the most significant first. -/
  groups : List UInt16
  length_groups : groups.length = 8
  deriving DecidableEq, Hashable

/-- An internet address of either family. -/
inductive Ip
  | v4 (address : Ipv4)
  | v6 (address : Ipv6)
  deriving DecidableEq, Hashable

instance : Inhabited Ip := ⟨.v4 ⟨0, 0, 0, 0⟩⟩

namespace Ipv4

/-- The four octets as a list. -/
def toList (ip : Ipv4) : List UInt8 :=
  [ip.octets.1, ip.octets.2.1, ip.octets.2.2.1, ip.octets.2.2.2]

/-- The two groups that stand for the address at the end of an IPv6 address. -/
def toGroups (ip : Ipv4) : List UInt16 :=
  [(256 * ip.octets.1.toNat + ip.octets.2.1.toNat).toUInt16,
    (256 * ip.octets.2.2.1.toNat + ip.octets.2.2.2.toNat).toUInt16]

/-- The address in dotted decimal form. -/
def render (ip : Ipv4) : String :=
  ".".intercalate (ip.toList.map fun octet => toString octet.toNat)

/-- Reads one octet: one to three digits, no leading zero before another digit. -/
def readOctet (chars : List Char) : Option (UInt8 × List Char) :=
  let digits := chars.takeWhile (Numeral.isDigit 10)
  let number := Numeral.value 10 digits
  if digits = [] ∨ 3 < digits.length ∨ (digits.head? = some '0' ∧ 1 < digits.length) ∨ 255 < number
  then none
  else some (number.toUInt8, chars.dropWhile (Numeral.isDigit 10))

/-- Skips the character `c`. -/
def skip (c : Char) : List Char → Option (List Char)
  | [] => none
  | d :: rest => if d = c then some rest else none

/-- Reads an address off the front of `chars`. -/
def read (chars : List Char) : Option (Ipv4 × List Char) := do
  let (a, chars) ← readOctet chars
  let (b, chars) ← readOctet (← skip '.' chars)
  let (c, chars) ← readOctet (← skip '.' chars)
  let (d, chars) ← readOctet (← skip '.' chars)
  return (⟨a, b, c, d⟩, chars)

end Ipv4

namespace Ipv6

/-- Reads one group: one to four hexadecimal digits. -/
def readGroup (chars : List Char) : Option (UInt16 × List Char) :=
  let digits := chars.takeWhile (Numeral.isDigit 16)
  if digits = [] ∨ 4 < digits.length then none
  else some ((Numeral.value 16 digits).toUInt16, chars.dropWhile (Numeral.isDigit 16))

/-- The characters after the separator that every group but the first has before it. -/
def afterSeparator (first : Bool) (chars : List Char) : Option (List Char) :=
  if first then some chars else Ipv4.skip ':' chars

/-- Reads groups separated by colons, as many as there are up to `slots`. The last two may be an
IPv4 address, which ends the groups. Gives the groups, whether they end in an IPv4 address, and the
rest. -/
def readGroups : Nat → Bool → List Char → List UInt16 × Bool × List Char
  | 0, _, chars => ([], false, chars)
  | slots + 1, first, chars =>
    let embedded := if slots = 0 then none else (afterSeparator first chars).bind Ipv4.read
    match embedded with
    | some (ip, rest) => (ip.toGroups, true, rest)
    | none =>
      match (afterSeparator first chars).bind readGroup with
      | none => ([], false, chars)
      | some (group, rest) =>
        let (groups, ended, rest) := readGroups slots false rest
        (group :: groups, ended, rest)

/-- The address made of `head`, zero groups, and `tail`. -/
def join? (head tail : List UInt16) : Option Ipv6 :=
  let groups := head ++ List.replicate (8 - head.length - tail.length) 0 ++ tail
  if h : groups.length = 8 then some ⟨groups, h⟩ else none

/-- Reads an address off the front of `chars`: eight groups, or fewer with `::` for the rest. An
IPv4 address may only stand at the very end. -/
def read (chars : List Char) : Option (Ipv6 × List Char) := do
  let (head, embedded, chars) := readGroups 8 true chars
  if head.length = 8 then
    return (← join? head [], chars)
  if embedded then none
  let chars ← Ipv4.skip ':' chars
  let chars ← Ipv4.skip ':' chars
  let (tail, _, chars) := readGroups (7 - head.length) true chars
  return (← join? head tail, chars)

/-- Where a run of zero groups begins and how many groups it has. -/
structure Run where
  start : Nat
  length : Nat
  deriving DecidableEq, Inhabited

/-- The longest run of zero groups among `groups`, the first of which has the index `index`.
`current` is the run that ends before them and `longest` the longest run so far. -/
def longestRunFrom (index : Nat) (current longest : Run) : List UInt16 → Run
  | [] => longest
  | group :: rest =>
    if group = 0 then
      let current := if current.length = 0 then ⟨index, 1⟩ else ⟨current.start, current.length + 1⟩
      let longest := if longest.length < current.length then current else longest
      longestRunFrom (index + 1) current longest rest
    else longestRunFrom (index + 1) ⟨0, 0⟩ longest rest

/-- The longest run of zero groups, the first of equally long ones. -/
def longestRun (ip : Ipv6) : Run :=
  longestRunFrom 0 ⟨0, 0⟩ ⟨0, 0⟩ ip.groups

/-- A group in lower-case hexadecimal without leading zeros. -/
def renderGroup (group : UInt16) : String :=
  String.ofList (Nat.toDigits 16 group.toNat)

/-- Groups between colons. -/
def renderGroups (groups : List UInt16) : String :=
  ":".intercalate (groups.map renderGroup)

/-- The IPv4 address that is mapped into this address. -/
def mapped? (ip : Ipv6) : Option Ipv4 :=
  match ip.groups with
  | [0, 0, 0, 0, 0, 0xffff, high, low] =>
    some ⟨(high.toNat / 256).toUInt8, high.toUInt8, (low.toNat / 256).toUInt8, low.toUInt8⟩
  | _ => none

/-- The shortest text of the address. -/
def render (ip : Ipv6) : String :=
  match ip.mapped? with
  | some v4 => "::ffff:" ++ v4.render
  | none =>
    let run := ip.longestRun
    if 1 < run.length then
      renderGroups (ip.groups.take run.start) ++ "::" ++
        renderGroups (ip.groups.drop (run.start + run.length))
    else renderGroups ip.groups

end Ipv6

namespace Ip

/-- The text of the address. -/
def render : Ip → String
  | v4 ip => ip.render
  | v6 ip => ip.render

/-- The address that all of `text` spells. A text that begins with an IPv4 address is not read as
anything else. -/
def parse? (text : String) : Option Ip :=
  match Ipv4.read text.toList with
  | some (ip, rest) => if rest = [] then some (v4 ip) else none
  | none =>
    match Ipv6.read text.toList with
    | some (ip, rest) => if rest = [] then some (v6 ip) else none
    | none => none

/-- Whether the address is an IPv4 one. -/
def isV4 : Ip → Bool
  | v4 _ => true
  | v6 _ => false

/-- The address with a port: IPv6 addresses stand in square brackets. -/
def withPort (ip : Ip) (port : UInt16) : String :=
  match ip with
  | v4 ip => ip.render ++ ":" ++ toString port.toNat
  | v6 ip => "[" ++ ip.render ++ "]:" ++ toString port.toNat

end Ip

end PeerCensus
