import PeerCensus.Proofs.Keeper.Life
import PeerCensus.Proofs.Net.PeerId

/-!
# One entry for each node

A node is known by its key, and a peer is stored under an id that is made of the key. Since the id
determines the key, whichever encoding it was read from, what is stored under an id belongs to one
node, and each node has one place in the store.

Results:
* `ingest_other`: a node that is taken in leaves the entries of other nodes alone.
* `Keeper.Life.node_of_stored`, `Keeper.Life.id_unique`: at any time in a life, an entry has one
  node, and a node has one entry.
* `peerId_faithful`: ids, keys, encodings and entries belong to each other.
-/

namespace PeerCensus

theorem Hex.encode_injective {a b : Bytes} (h : Hex.encode a = Hex.encode b) : a = b := by
  have read := Hex.decode_encode a
  rw [h, Hex.decode_encode b] at read
  exact (Option.some.inj read).symm

/-- A node that is taken in leaves the entries of other nodes alone. -/
theorem ingest_other (allowed : AllowedForks) {r : NodeRecord} (s : PeerStore) {key : PublicKey}
    (h : key ≠ r.publicKey) :
    (ingest allowed r s).2.registry.find? (.ofPublicKey key) =
      s.registry.find? (.ofPublicKey key) := by
  rw [find?_ingest, if_neg fun hid => h (PeerId.ofPublicKey_inj.1 hid.2)]

namespace Keeper.Life

variable {allowed : AllowedForks} {m : Machine} {id id' : PeerId} {p p' : Peer}

/-- A stored peer belongs to one node, whose key is written in it. -/
theorem node_of_stored (h : Life allowed m) (hp : m.store.registry.find? id = some p) :
    ∃ key : PublicKey, p.publicKey = Hex.encode key.compressed ∧
      ∀ key' : PublicKey, id = .ofPublicKey key' ↔ key' = key := by
  obtain ⟨key, hkey, hid, -⟩ := ((h.has (lasting_sound allowed)).stored hp).key
  rw [Registry.id_of_find?_eq_some hp] at hid
  refine ⟨key, hkey, fun key' => ?_⟩
  rw [hid, PeerId.ofPublicKey_inj, eq_comm]

/-- A node has one entry. -/
theorem id_unique (h : Life allowed m) (hp : m.store.registry.find? id = some p)
    (hp' : m.store.registry.find? id' = some p') (hkey : p.publicKey = p'.publicKey) : id = id' := by
  obtain ⟨key, hp, hid⟩ := h.node_of_stored hp
  obtain ⟨key', hp', hid'⟩ := h.node_of_stored hp'
  rw [hp, hp'] at hkey
  obtain rfl := PublicKey.compressed_injective (Hex.encode_injective hkey)
  exact ((hid key).2 rfl).trans ((hid' key).2 rfl).symm

end Keeper.Life

/-- Two keys have one peer id exactly if they are equal, which is to say that their compressed
encodings agree, and a key is read from any of its three encodings and from nothing else. All peer
ids begin alike. A node that is taken in never touches the entry of another one, and at any time in
a life that began over an empty store, each entry belongs to exactly one node and no node has two. -/
theorem peerId_faithful :
    (∀ key key' : PublicKey, PeerId.ofPublicKey key = .ofPublicKey key' ↔ key = key') ∧
    (∀ key key' : PublicKey, key = key' ↔ key.compressed = key'.compressed) ∧
    (∀ bytes key, PublicKey.decode bytes = some key ↔ bytes ∈ key.encodings) ∧
    (∀ key, ∃ rest, (PeerId.ofPublicKey key).text = "16Uiu2" ++ rest) ∧
    (∀ allowed (r : NodeRecord) s key, key ≠ r.publicKey →
      (ingest allowed r s).2.registry.find? (.ofPublicKey key) =
        s.registry.find? (.ofPublicKey key)) ∧
    ∀ allowed m, Keeper.Life allowed m →
      (∀ id p, m.store.registry.find? id = some p →
        ∃ key : PublicKey, p.publicKey = Hex.encode key.compressed ∧
          ∀ key' : PublicKey, id = .ofPublicKey key' ↔ key' = key) ∧
      ∀ id id' p p', m.store.registry.find? id = some p → m.store.registry.find? id' = some p' →
        p.publicKey = p'.publicKey → id = id' := by
  refine ⟨fun _ _ => PeerId.ofPublicKey_inj, fun key key' => ?_,
    fun _ _ => PublicKey.decode_eq_some_iff, PeerId.exists_text_ofPublicKey,
    fun allowed _ s _ => ingest_other allowed s, fun allowed m h => ?_⟩
  · exact ⟨congrArg PublicKey.compressed, PublicKey.compressed_injective⟩
  · exact ⟨fun _ _ => h.node_of_stored, fun _ _ _ _ => h.id_unique⟩

/-- A stored peer has the id of one node only, and the id of no other key. -/
theorem peerId_faithful_tried :
    ∃ key : PublicKey, Keeper.Once.tried.publicKey = Hex.encode key.compressed ∧
      ∀ key' : PublicKey, Keeper.Once.tried.id = .ofPublicKey key' ↔ key' = key :=
  (peerId_faithful.2.2.2.2.2 Newcomer.forks Keeper.Once.keeper Keeper.Once.life_keeper).1 _ _
    Keeper.Once.find?_keeper

end PeerCensus
