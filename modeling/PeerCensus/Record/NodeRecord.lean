import PeerCensus.Chain.Subnets
import PeerCensus.Chain.Fork
import PeerCensus.Net.PeerId
import PeerCensus.Record.Signed
import PeerCensus.Text.Base64

/-!
# Node records

What discovery tells of a node: its key, where it can be reached, and named entries that hold the
fork it follows and the subnets it subscribes to. A port of zero counts as none.
-/

namespace PeerCensus

/-- Why a text or a signed record is not a node record. -/
inductive RecordError
  /-- The text is not a signed record in hexadecimal or base64. -/
  | undecodable
  /-- The value of an entry is not a string of bytes. -/
  | malformedEntry (key : String)
  deriving DecidableEq

/-- The text shown for the error. -/
def RecordError.message : RecordError → String
  | undecodable => "Undecodable node record:"
  | malformedEntry key => "Node record entry " ++ key ++ " is malformed"

/-- What is known of a node from discovery. -/
structure NodeRecord where
  publicKey : PublicKey
  ip : Option Ip
  tcp : Option UInt16
  udp : Option UInt16
  /-- The entries, each key once. -/
  entries : List (String × Bytes)
  deriving DecidableEq

namespace NodeRecord

/-- The key of the entry with the fork. -/
def forkKey : String := "eth2"

/-- The key of the entry with the subnets. -/
def subnetsKey : String := "attnets"

/-! ## Making records -/

/-- The record of a node of which only the key is known. -/
def new (publicKey : PublicKey) : NodeRecord := ⟨publicKey, none, none, none, []⟩

/-- A port, unless it is zero. -/
def port? (port : UInt16) : Option UInt16 :=
  if port = 0 then none else some port

def withIp (ip : Ip) (r : NodeRecord) : NodeRecord := { r with ip := some ip }

def withTcp (port : UInt16) (r : NodeRecord) : NodeRecord := { r with tcp := port? port }

def withUdp (port : UInt16) (r : NodeRecord) : NodeRecord := { r with udp := port? port }

/-- The record with `value` under `key`, in place of what was there. Model of `with_entry`. -/
def withEntry (key : String) (value : Bytes) (r : NodeRecord) : NodeRecord :=
  { r with entries := (key, value) :: r.entries.filter fun entry => entry.1 ≠ key }

def withFork (fork : ForkId) (r : NodeRecord) : NodeRecord := r.withEntry forkKey (Ssz.encode fork)

def withSubnets (subnets : Subnets) (r : NodeRecord) : NodeRecord :=
  r.withEntry subnetsKey (Ssz.encode subnets)

/-! ## Reading records -/

/-- The value under a key. -/
def entry? (r : NodeRecord) (key : String) : Option Bytes :=
  (r.entries.find? fun entry => entry.1 == key).map (·.2)

/-- The fork the node follows, if it says so. Model of `eth2`. -/
def fork? (r : NodeRecord) : Option (Except CodecError ForkId) :=
  (r.entry? forkKey).map (Ssz.decode ForkId)

/-- The subnets the node subscribes to, if it says so. Model of `attnets`. -/
def subnets? (r : NodeRecord) : Option (Except CodecError Subnets) :=
  (r.entry? subnetsKey).map (Ssz.decode Subnets)

def peerId (r : NodeRecord) : PeerId := .ofPublicKey r.publicKey

def nodeId (r : NodeRecord) : NodeId := .ofPublicKey r.publicKey

/-- The TCP address, then the UDP address, as far as they are known. -/
def addresses (r : NodeRecord) : List Address :=
  match r.ip with
  | none => []
  | some ip =>
    (r.tcp.map fun port => Address.mk ip port .tcp).toList ++
      (r.udp.map fun port => Address.mk ip port .udp).toList

/-- The text of a record. -/
def render (r : NodeRecord) : String :=
  r.peerId.text ++
    match r.ip, r.tcp with
    | some ip, some port => " at " ++ ip.render ++ ":" ++ toString port.toNat
    | some ip, none => " at " ++ ip.render
    | none, _ => ""

/-! ## From signed records -/

/-- The address of four bytes. -/
def ipv4? : Bytes → Option Ipv4
  | [a, b, c, d] => some ⟨a, b, c, d⟩
  | _ => none

/-- The groups of sixteen bits that pairs of bytes make. -/
def groups : Bytes → List UInt16
  | high :: low :: rest => (256 * high.toNat + low.toNat).toUInt16 :: groups rest
  | _ => []

/-- The address of sixteen bytes. -/
def ipv6? (bytes : Bytes) : Option Ipv6 :=
  if h : (groups bytes).length = 8 then some ⟨groups bytes, h⟩ else none

/-- Where a signed record says its node is: at its IPv4 address with the ports for it, or else at
its IPv6 address with the ports for that. -/
def endpoint (s : SignedRecord) : Option Ip × Option UInt16 × Option UInt16 :=
  let port (key : String) : Option UInt16 := (s.number? key).bind fun n => port? n.toUInt16
  match (s.string? "ip").bind ipv4?, (s.string? "ip6").bind ipv6? with
  | some ip, _ => (some (.v4 ip), port "tcp", port "udp")
  | none, some ip => (some (.v6 ip), port "tcp6", port "udp6")
  | none, none => (none, none, none)

/-- The record with the entry that a signed record has under `key`, if any. -/
def copyEntry (s : SignedRecord) (key : String) (r : NodeRecord) : Except RecordError NodeRecord :=
  match s.item? key with
  | none => .ok r
  | some item =>
    match Rlp.string? item with
    | some value => .ok (r.withEntry key value)
    | none => .error (.malformedEntry key)

/-- The node record of a signed record. Model of `from_enr`. -/
def ofSigned (s : SignedRecord) : Except RecordError NodeRecord := do
  let (ip, tcp, udp) := endpoint s
  let r ← copyEntry s forkKey ⟨s.publicKey, ip, tcp, udp, []⟩
  copyEntry s subnetsKey r

/-- The bytes that a text spells: in hexadecimal with an optional `0x` if it can be read so, and in
base64 with an optional `enr:` otherwise. White space around the text is ignored. -/
def bytesOfText? (text : String) : Option Bytes :=
  let chars := Text.trimChars text.toList
  match Hex.decodeChars (Hex.dropMarker chars) with
  | some bytes => some bytes
  | none =>
    Base64.decode (String.ofList
      (if "enr:".toList.isPrefixOf chars then chars.drop 4 else chars))

/-- The node record a text spells. Model of `parse_enr`. -/
def parse (text : String) : Except RecordError NodeRecord :=
  match (bytesOfText? text).bind SignedRecord.decode with
  | some s => ofSigned s
  | none => .error .undecodable

end NodeRecord

end PeerCensus
