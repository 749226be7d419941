import PeerCensus.Text.Split

/-!
# User agents

Clients name themselves in texts of fields between slashes. The first field tells the client; which
fields hold the version and the platform depends on the client. Every text has a meaning: what is
not recognised is `others`, `unknown`, or an unknown version.

Results:
* `parse_client`: the client depends on the first field alone.
-/

namespace PeerCensus

/-- A client of the network, in the order in which clients are listed. -/
inductive Client
  | prysm
  | lighthouse
  | teku
  | cortex
  | lodestar
  | nimbus
  | trinity
  | grandine
  | others
  deriving DecidableEq, Hashable, Repr

namespace Client

/-- The name of a client. -/
def name : Client → String
  | prysm => "prysm"
  | lighthouse => "lighthouse"
  | teku => "teku"
  | cortex => "cortex"
  | lodestar => "lodestar"
  | nimbus => "nimbus"
  | trinity => "trinity"
  | grandine => "grandine"
  | others => "others"

/-- All clients in order. -/
def all : List Client :=
  [prysm, lighthouse, teku, cortex, lodestar, nimbus, trinity, grandine, others]

theorem mem_all (client : Client) : client ∈ all := by
  cases client <;> decide

/-- The names by which a client goes in the first field; none belong to `others`. -/
def aliases : Client → List String
  | lodestar => ["lodestar", "js-libp2p"]
  | grandine => ["grandine", "rust"]
  | others => []
  | client => [client.name]

/-- The index of the field that holds the version. -/
def versionField : Client → Nat
  | teku => 2
  | _ => 1

/-- The index of the field that holds the platform, if there is one. -/
def platformField? : Client → Option Nat
  | teku => some 3
  | prysm => none
  | _ => some 2

end Client

/-- A family of operating systems. -/
inductive Os
  | linux
  | mac
  | windows
  | unknown
  deriving DecidableEq, Hashable, Repr

/-- The name of a family of operating systems. -/
def Os.name : Os → String
  | linux => "linux"
  | mac => "mac"
  | windows => "windows"
  | unknown => "unknown"

/-- What a client says about itself. -/
structure Agent where
  client : Client
  /-- The version without suffixes. -/
  version : String
  os : Os
  deriving DecidableEq

namespace Agent

/-- The version of a client that names none. -/
def unknownVersion : String := "unknown"

/-- `c` in lower case if it is an ASCII letter. -/
def lowerChar (c : Char) : Char :=
  if 'A' ≤ c ∧ c ≤ 'Z' then Char.ofNat (c.toNat + 32) else c

/-- `chars` with ASCII letters in lower case. -/
def lower (chars : List Char) : List Char :=
  chars.map lowerChar

/-- The client whose name the field is, whatever the case of its ASCII letters. -/
def clientOf (field : String) : Client :=
  (Client.all.find? fun client =>
    client.aliases.any fun name => lower name.toList == lower field.toList).getD .others

/-- The version in a field: what comes before the first hyphen or plus sign. -/
def versionOf (field : String) : String :=
  let version := field.toList.takeWhile fun c => c ≠ '-' ∧ c ≠ '+'
  if version = [] then unknownVersion else String.ofList version

/-- Whether `part` occurs in `chars`. -/
def occurs (part : List Char) : List Char → Bool
  | [] => part == []
  | c :: rest => part.isPrefixOf (c :: rest) || occurs part rest

/-- The operating system a platform names. Where several names occur, `windows` goes before `mac`
and `mac` before `linux`. No character outside of ASCII helps to spell one of these names in lower
case (a capital I with a dot becomes an i with one more dot), so the case of others does not
matter. -/
def osOf (platform : String) : Os :=
  let platform := lower platform.toList
  if occurs "windows".toList platform then .windows
  else if occurs "mac".toList platform then .mac
  else if occurs "linux".toList platform then .linux
  else .unknown

/-- What an agent text says. -/
def parse (text : String) : Agent :=
  let fields := Text.split '/' text
  let client := clientOf (fields.getD 0 "")
  { client
    version := versionOf (fields.getD client.versionField "")
    os := osOf ((client.platformField?.bind fun i => fields[i]?).getD "") }

/-- The text of an agent. -/
def render (a : Agent) : String :=
  a.client.name ++ "/" ++ a.version ++ "/" ++ a.os.name

theorem parse_client (text : String) :
    (parse text).client = clientOf ((Text.split '/' text).getD 0 "") := rfl

end Agent

end PeerCensus
