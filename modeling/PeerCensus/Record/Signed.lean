import PeerCensus.Curve.Secp256k1
import PeerCensus.Hash.Keccak
import PeerCensus.Record.Rlp

/-!
# Signed records

A node signs a list of a sequence number and of keys with values, the keys ascending. The record is
the list with the signature in front of the rest. Only the identity scheme `v4` is known: the key
of the node stands under `secp256k1`, and what is signed is the Keccak-256 digest of the list
without the signature.
-/

namespace PeerCensus

/-- A record whose signature has been checked. -/
structure SignedRecord where
  publicKey : PublicKey
  /-- The number of the version of the record. -/
  sequence : Nat
  /-- The keys in order, each with the item under it. -/
  pairs : List (Bytes × Bytes)
  deriving DecidableEq

namespace SignedRecord

/-- The most bytes of a record. -/
def maxSize : Nat := 300

/-- Whether a key comes before another. -/
def precedes : Bytes → Bytes → Bool
  | _, [] => false
  | [], _ :: _ => true
  | a :: as, b :: bs => a < b || (a == b && precedes as bs)

/-- Whether an item may stand under a key. Keys without a meaning of their own may have any. -/
def fits (key item : Bytes) : Bool :=
  if key = Bytes.ofString "id" then Rlp.string? item == some (Bytes.ofString "v4")
  else if key = Bytes.ofString "tcp" ∨ key = Bytes.ofString "tcp6" ∨ key = Bytes.ofString "udp" ∨
      key = Bytes.ofString "udp6" then ((Rlp.string? item).bind (Rlp.number? 2)).isSome
  else if key = Bytes.ofString "ip" then (Rlp.string? item).any fun content => content.length == 4
  else if key = Bytes.ofString "ip6" then (Rlp.string? item).any fun content => content.length == 16
  else if key = Bytes.ofString "secp256k1" ∨ key = Bytes.ofString "ed25519" then
    (Rlp.string? item).isSome
  else true

/-- Reads keys with their items to the end of `bytes`. `last` is the key before them. -/
def readPairs (last : Option Bytes) (bytes : Bytes) : Option (List (Bytes × Bytes)) :=
  if bytes = [] then some []
  else
    match _key : Rlp.readItem bytes with
    | some (false, key, rest) =>
      match _item : Rlp.readItem rest with
      | some (_, _, left) =>
        let item := rest.take (rest.length - left.length)
        if (last.all fun l => precedes l key) ∧ fits key item then
          (readPairs (some key) left).map ((key, item) :: ·)
        else none
      | none => none
    | _ => none
termination_by bytes.length
decreasing_by exact Nat.lt_trans (Rlp.length_readItem _item) (Rlp.length_readItem _key)

/-- The item under a key. -/
def itemIn? (pairs : List (Bytes × Bytes)) (key : String) : Option Bytes :=
  (pairs.find? fun pair => pair.1 == Bytes.ofString key).map (·.2)

/-- The digest that is signed: of the list of all that follows the signature. -/
def signedDigest (content : Bytes) : Bytes :=
  Keccak.digestBytes (Rlp.listHead content.length ++ content)

/-- The record at the start of `bytes`, if its signature is that of its own key. -/
def decode (bytes : Bytes) : Option SignedRecord := do
  if maxSize < bytes.length then none
  let (isList, body, _) ← Rlp.readItem bytes
  if !isList then none
  let (signature, content) ← Rlp.readString body
  let (number, rest) ← Rlp.readString content
  let sequence ← Rlp.number? 8 number
  let pairs ← readPairs none rest
  if (itemIn? pairs "id").isNone then none
  let key ← PublicKey.decodeStandard (← Rlp.string? (← itemIn? pairs "secp256k1"))
  if !key.verifies (signedDigest content) signature then none
  return ⟨key, sequence, pairs⟩

/-- The item under a key of the record. -/
def item? (r : SignedRecord) (key : String) : Option Bytes :=
  itemIn? r.pairs key

/-- The string under a key. -/
def string? (r : SignedRecord) (key : String) : Option Bytes :=
  (r.item? key).bind Rlp.string?

/-- The number under a key. -/
def number? (r : SignedRecord) (key : String) : Option Nat :=
  (r.string? key).map Bytes.toNatBE

end SignedRecord

end PeerCensus
