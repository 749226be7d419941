import PeerCensus.Curve.Secp256k1
import PeerCensus.Hash.Keccak
import PeerCensus.Net.Address
import PeerCensus.Text.Base58
import PeerCensus.Text.Hex

/-!
# Peer ids and node ids

A peer is named in two ways, both derived from its public key: by the base58 text of the key wrapped
in an identity multihash, and by the Keccak-256 digest of the key's coordinates. A `DialInfo` is a
peer id with the addresses to try.
-/

namespace PeerCensus

/-- The name of a peer on the network. Ids are ordered as texts. -/
structure PeerId where
  text : String
  deriving DecidableEq, Hashable, Inhabited

namespace PeerId

/-- What stands before a compressed key in its peer id: an identity multihash of 37 bytes that holds
a key of type secp256k1 (2) with 33 bytes of data. -/
def identityHeader : Bytes := [0x00, 0x25, 0x08, 0x02, 0x12, 0x21]

/-- The bytes whose base58 text is the peer id of `key`. -/
def identityBytes (key : PublicKey) : Bytes :=
  identityHeader ++ key.compressed

/-- The peer id of `key`. -/
def ofPublicKey (key : PublicKey) : PeerId :=
  ⟨Base58.encode (identityBytes key)⟩

/-- Whether `a` comes before `b` or is `b`. -/
def le (a b : PeerId) : Bool :=
  !(b.text < a.text)

/-- The ids in order. -/
def sort (ids : List PeerId) : List PeerId :=
  ids.mergeSort le

end PeerId

/-- The name of a node in discovery. -/
structure NodeId where
  bytes : FixedBytes 32
  deriving DecidableEq

namespace NodeId

/-- The node id of `key`. -/
def ofPublicKey (key : PublicKey) : NodeId :=
  ⟨Keccak.digest key.coordinates⟩

/-- The id in hexadecimal. -/
def render (id : NodeId) : String :=
  Hex.encode id.bytes.toList

end NodeId

/-- All that is needed to dial a peer. -/
structure DialInfo where
  id : PeerId
  addresses : List Address
  deriving DecidableEq

namespace DialInfo

/-- The first TCP address, the only kind a connection can use. Model of `tcp_address`. -/
def tcpAddress? (info : DialInfo) : Option Address :=
  info.addresses.find? fun a => a.transport == .tcp

/-- The id with the address that is dialled. -/
def render (info : DialInfo) : String :=
  match info.tcpAddress? with
  | some a => info.id.text ++ " (" ++ a.render ++ ")"
  | none => info.id.text ++ " (no tcp address)"

end DialInfo

end PeerCensus
