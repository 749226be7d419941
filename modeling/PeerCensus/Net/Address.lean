import PeerCensus.Net.Ip
import PeerCensus.Text.Quoted
import PeerCensus.Text.Split

/-!
# Peer addresses

A transport, an internet address and a port, written as the path
`/ip4/<address>/tcp/<port>`. Nothing but this form is read; the first component has to name the
family of the address.
-/

namespace PeerCensus

/-- The transport of an address. -/
inductive Transport
  | tcp
  | udp
  deriving DecidableEq, Hashable, Repr

/-- The component of a path that names the transport. -/
def Transport.name : Transport → String
  | tcp => "tcp"
  | udp => "udp"

/-- A place where a peer can be reached. -/
structure Address where
  ip : Ip
  port : UInt16
  transport : Transport
  deriving DecidableEq, Hashable

/-- A text that is not the path of an address. -/
structure AddressError where
  /-- The text as it was given. -/
  input : String
  deriving DecidableEq

/-- The text shown for the error. -/
def AddressError.message (e : AddressError) : String :=
  "unsupported address: " ++ Text.quote e.input

namespace Address

/-- The component of a path that names the family of an address. -/
def family : Ip → String
  | .v4 _ => "ip4"
  | .v6 _ => "ip6"

/-- The address as a path. -/
def render (a : Address) : String :=
  "/" ++ family a.ip ++ "/" ++ a.ip.render ++ "/" ++ a.transport.name ++ "/" ++ toString a.port.toNat

/-- The transport a component names. -/
def transport? (name : String) : Option Transport :=
  if name = "tcp" then some .tcp else if name = "udp" then some .udp else none

/-- The address of a path split at its slashes. -/
def ofComponents? : List String → Option Address
  | [root, familyName, ip, transport, port] => do
    if root ≠ "" then none
    let ip ← Ip.parse? ip
    if familyName ≠ family ip then none
    let transport ← transport? transport
    let port ← Numeral.bounded? 65535 port
    return ⟨ip, port.toUInt16, transport⟩
  | _ => none

/-- The address a path stands for. -/
def parse (text : String) : Except AddressError Address :=
  match ofComponents? (Text.split '/' text) with
  | some a => .ok a
  | none => .error ⟨text⟩

/-- The address and port as a socket is usually written. Model of `socket_addr`. -/
def socket (a : Address) : String :=
  a.ip.withPort a.port

end Address

end PeerCensus
