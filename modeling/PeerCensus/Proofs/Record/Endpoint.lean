import PeerCensus.Proofs.Peer.Soundness

/-!
# Where a node can be dialled

A signed record may carry an address and a TCP port for either family of addresses. The two of one
family make an endpoint, and a node with an endpoint can be dialled, at its IPv4 endpoint if it has
both. A record is read at one family only, and which one is decided by the addresses before any port
is looked at. So an IPv4 address without a TCP port hides a complete IPv6 endpoint; nothing else
does.

Results:
* `NodeRecord.ip_of_ofSigned`, `NodeRecord.tcp_of_ofSigned`: what is read of the chosen family.
* `AllowedForks.candidate_undialable_iff`: who is rejected because it cannot be dialled.
* `NodeRecord.keeps_endpoint_iff`: whose endpoint is kept.
* `hidden_endpoint`: a signed record that can be dialled, and is rejected.
-/

namespace PeerCensus

/-- A family of internet addresses. -/
inductive Family
  | v4
  | v6
  deriving DecidableEq, Repr

namespace SignedRecord

/-- The address of a family that a record carries. -/
def address? (s : SignedRecord) : Family → Option Ip
  | .v4 => ((s.string? "ip").bind NodeRecord.ipv4?).map .v4
  | .v6 => ((s.string? "ip6").bind NodeRecord.ipv6?).map .v6

/-- The TCP port for a family that a record carries; a port of zero is none. -/
def tcpPort? (s : SignedRecord) : Family → Option UInt16
  | .v4 => (s.number? "tcp").bind fun n => NodeRecord.port? n.toUInt16
  | .v6 => (s.number? "tcp6").bind fun n => NodeRecord.port? n.toUInt16

/-- The endpoint of a family, if the record carries both its address and its TCP port. -/
def endpoint? (s : SignedRecord) (family : Family) : Option (Ip × UInt16) :=
  (s.address? family).bind fun ip => (s.tcpPort? family).map fun port => (ip, port)

/-- Where the node can be dialled: at its IPv4 endpoint, or else at its IPv6 endpoint. -/
def dialable? (s : SignedRecord) : Option (Ip × UInt16) :=
  (s.endpoint? .v4).or (s.endpoint? .v6)

/-- Whether an IPv4 address without a TCP port stands before a complete IPv6 endpoint. -/
def Hidden (s : SignedRecord) : Prop :=
  (s.address? .v4).isSome ∧ s.tcpPort? .v4 = none ∧ (s.endpoint? .v6).isSome

/-- Whether the entries that are copied are strings of bytes, as far as they are there. -/
def Readable (s : SignedRecord) : Prop :=
  ∀ key ∈ [NodeRecord.forkKey, NodeRecord.subnetsKey],
    (s.item? key).all fun item => (Rlp.string? item).isSome

instance (s : SignedRecord) : Decidable s.Hidden :=
  inferInstanceAs (Decidable (_ ∧ _ ∧ _))

instance (s : SignedRecord) : Decidable s.Readable :=
  inferInstanceAs (Decidable (∀ key ∈ [NodeRecord.forkKey, NodeRecord.subnetsKey],
    (s.item? key).all fun item => (Rlp.string? item).isSome))

/-- The family at which a record is read. -/
def family? (s : SignedRecord) : Option Family :=
  if (s.address? .v4).isSome then some .v4
  else if (s.address? .v6).isSome then some .v6
  else none

end SignedRecord

/-! ## What is read of a signed record -/

namespace NodeRecord

variable {s : SignedRecord} {r r' : NodeRecord} {key : String}

/-- A record is read at the family that is chosen by the addresses alone. -/
theorem endpoint_eq (s : SignedRecord) :
    (endpoint s).1 = s.family?.bind s.address? ∧ (endpoint s).2.1 = s.family?.bind s.tcpPort? := by
  rw [endpoint, SignedRecord.family?]
  split
  · rename_i ip h4
    have first : s.address? .v4 = some (.v4 ip) := by rw [SignedRecord.address?, h4]; rfl
    simp [first, SignedRecord.tcpPort?]
  · rename_i ip h4 h6
    have first : s.address? .v4 = none := by rw [SignedRecord.address?, h4]; rfl
    have second : s.address? .v6 = some (.v6 ip) := by rw [SignedRecord.address?, h6]; rfl
    simp [first, second, SignedRecord.tcpPort?]
  · rename_i h4 h6
    have first : s.address? .v4 = none := by rw [SignedRecord.address?, h4]; rfl
    have second : s.address? .v6 = none := by rw [SignedRecord.address?, h6]; rfl
    simp [first, second]

/-- Entries do not touch the address. -/
theorem ip_of_copyEntry (h : copyEntry s key r = .ok r') : r'.ip = r.ip := by
  rw [copyEntry] at h
  split at h
  · cases h
    rfl
  · split at h
    · cases h
      rfl
    · cases h

theorem ip_of_ofSigned (h : ofSigned s = .ok r) : r.ip = s.family?.bind s.address? := by
  rw [← (endpoint_eq s).1]
  simp only [ofSigned, bind, Except.bind] at h
  split at h
  · cases h
  · rename_i r' hr'
    rw [ip_of_copyEntry h, ip_of_copyEntry hr']

theorem tcp_of_ofSigned_eq (h : ofSigned s = .ok r) : r.tcp = s.family?.bind s.tcpPort? :=
  (tcp_of_ofSigned h).trans (endpoint_eq s).2

theorem exists_copyEntry (key : String) (r : NodeRecord)
    (h : (s.item? key).all fun item => (Rlp.string? item).isSome) :
    ∃ r', copyEntry s key r = .ok r' := by
  rw [copyEntry]
  cases hitem : s.item? key with
  | none => exact ⟨r, rfl⟩
  | some item =>
    rw [hitem] at h
    obtain ⟨value, hvalue⟩ := Option.isSome_iff_exists.1 h
    exact ⟨r.withEntry key value, by simp only [hvalue]⟩

/-- A signed record is read if the entries that are copied can be read. -/
theorem exists_ofSigned (h : s.Readable) : ∃ r, ofSigned s = .ok r := by
  obtain ⟨r', hr'⟩ := exists_copyEntry forkKey
    ⟨s.publicKey, (endpoint s).1, (endpoint s).2.1, (endpoint s).2.2, []⟩ (h _ (by simp))
  obtain ⟨r, hr⟩ := exists_copyEntry subnetsKey r' (h _ (by simp))
  refine ⟨r, ?_⟩
  simp only [ofSigned, bind, Except.bind, hr', hr]

end NodeRecord

/-! ## Who is rejected because it cannot be dialled -/

/-- An address and a port are asked for before all else, and nothing else is rejected for want of
them. -/
theorem AllowedForks.candidate_undialable_iff (allowed : AllowedForks) (r : NodeRecord) :
    allowed.candidate r = .error .noTcpPort ∨ allowed.candidate r = .error .noIp ↔
      r.tcp = none ∨ r.ip = none := by
  simp only [candidate]
  cases r.tcp with
  | none => simp
  | some port =>
    cases r.ip with
    | none => simp
    | some ip =>
      have other (e : Rejection) (h : allowed.allowedFork r = .error e) :
          e ≠ .noTcpPort ∧ e ≠ .noIp := by
        rw [allowedFork] at h
        split at h
        · cases h; simp
        · cases h; simp
        · split at h
          · cases h
          · cases h; simp
      cases hfork : allowed.allowedFork r with
      | ok fork => simp [bind, Except.bind, pure, Except.pure]
      | error e => simpa [bind, Except.bind] using other e hfork

namespace SignedRecord

variable {s : SignedRecord}

/-- What is read of a record is where the node can be dialled, unless that is hidden. -/
theorem read_eq_dialable_iff :
    (∀ ip port, s.dialable? = some (ip, port) →
      s.family?.bind s.address? = some ip ∧ s.family?.bind s.tcpPort? = some port) ↔
        ¬ s.Hidden := by
  simp only [dialable?, Hidden, endpoint?, family?]
  cases h4 : s.address? .v4 with
  | none =>
    -- no endpoint but the one of the other family
    cases h6 : s.address? .v6 <;> cases p6 : s.tcpPort? .v6 <;> simp [h6, p6]
  | some ip =>
    cases p4 : s.tcpPort? .v4 with
    | none => cases h6 : s.address? .v6 <;> cases p6 : s.tcpPort? .v6 <;> simp [h4, p4]
    | some port => simp [h4, p4]

/-- Something is missing of what is read of a record if the node cannot be dialled, and if its
endpoint is hidden. -/
theorem read_incomplete_iff :
    s.family?.bind s.tcpPort? = none ∨ s.family?.bind s.address? = none ↔
      s.dialable? = none ∨ s.Hidden := by
  simp only [dialable?, Hidden, endpoint?, family?]
  cases h4 : s.address? .v4 with
  | none => cases h6 : s.address? .v6 <;> cases p6 : s.tcpPort? .v6 <;> simp [h6, p6]
  | some ip =>
    cases p4 : s.tcpPort? .v4 with
    | none => cases h6 : s.address? .v6 <;> cases p6 : s.tcpPort? .v6 <;> simp [h4, p4]
    | some port => simp [h4, p4]

end SignedRecord

namespace NodeRecord

/-- A signed record whose entries can be read becomes a node record. This has the endpoint where the
node can be dialled, whenever it can be, exactly if that is not hidden; and the node is rejected for
want of an address or a port exactly if it cannot be dialled or its endpoint is hidden. -/
theorem keeps_endpoint_iff (s : SignedRecord) (h : s.Readable) :
    ∃ r, ofSigned s = .ok r ∧
      ((∀ ip port, s.dialable? = some (ip, port) → r.ip = some ip ∧ r.tcp = some port) ↔
        ¬ s.Hidden) ∧
      ∀ allowed : AllowedForks,
        allowed.candidate r = .error .noTcpPort ∨ allowed.candidate r = .error .noIp ↔
          s.dialable? = none ∨ s.Hidden := by
  obtain ⟨r, hr⟩ := exists_ofSigned h
  refine ⟨r, hr, ?_, fun allowed => ?_⟩
  · rw [ip_of_ofSigned hr, tcp_of_ofSigned_eq hr]
    exact SignedRecord.read_eq_dialable_iff
  · rw [allowed.candidate_undialable_iff, ip_of_ofSigned hr, tcp_of_ofSigned_eq hr]
    exact SignedRecord.read_incomplete_iff

end NodeRecord

/-! ## A node with two addresses -/

namespace TwoAddresses

/-- The IPv6 address of the node. -/
def ip : Ip := .v6 ⟨[0x2001, 0xdb8, 0, 0, 0, 0, 0, 1], rfl⟩

/-- A node on an allowed fork, which can be dialled at port 9000 of its IPv6 address. Its record
also has an IPv4 address, and no port for that. -/
def pairs : List (Bytes × Bytes) :=
  [(Bytes.ofString "eth2", 0x90 :: Ssz.encode Newcomer.fork),
    (Bytes.ofString "id", 0x82 :: Bytes.ofString "v4"),
    (Bytes.ofString "ip", [0x84, 10, 0, 0, 1]),
    (Bytes.ofString "ip6", 0x90 :: Bytes.ofNatBE 16 0x20010db8000000000000000000000001),
    (Bytes.ofString "secp256k1", 0xa1 :: Newcomer.key.compressed),
    (Bytes.ofString "tcp6", 0x82 :: Bytes.ofNatBE 2 9000)]

/-- The record with its signature. -/
def bytes : Bytes :=
  [0xf8, 0xb0, 0xb8, 0x40] ++
    Bytes.ofNatBE 32 0x10f26440d8a5f4b9a4247376c923272806b1af3ad8170b57e3b66df44f728a54 ++
    Bytes.ofNatBE 32 0x00eeb04ef8288e0c15f53b09aae2653b6696b7e5ed78d9f313a3beb58ea16a30 ++
    1 :: pairs.flatMap fun pair => (0x80 + pair.1.length).toUInt8 :: pair.1 ++ pair.2

/-- The record when its signature has been checked. -/
def signed : SignedRecord := ⟨Newcomer.key, 1, pairs⟩

/-- The record without the IPv4 address. -/
def without : SignedRecord := ⟨Newcomer.key, 1, pairs.eraseIdx 2⟩

theorem decode_bytes : SignedRecord.decode bytes = some signed := by
  decide +kernel

end TwoAddresses

/-- Without the IPv4 address the endpoint of the node is kept, and the node is not rejected for want
of one. -/
theorem keeps_endpoint_without :
    TwoAddresses.without.Readable ∧ ¬ TwoAddresses.without.Hidden ∧
      TwoAddresses.without.dialable? = some (TwoAddresses.ip, 9000) ∧
      ∃ r, NodeRecord.ofSigned TwoAddresses.without = .ok r ∧ r.ip = some TwoAddresses.ip ∧
        r.tcp = some 9000 ∧ ¬ (Newcomer.forks.candidate r = .error .noTcpPort ∨
          Newcomer.forks.candidate r = .error .noIp) := by
  have readable : TwoAddresses.without.Readable := by decide +kernel
  have clear : ¬ TwoAddresses.without.Hidden := by decide +kernel
  have dialable : TwoAddresses.without.dialable? = some (TwoAddresses.ip, 9000) := by
    decide +kernel
  obtain ⟨r, hr, kept, rejected⟩ := NodeRecord.keeps_endpoint_iff TwoAddresses.without readable
  refine ⟨readable, clear, dialable, r, hr, (kept.2 clear _ _ dialable).1,
    (kept.2 clear _ _ dialable).2, fun h => ?_⟩
  rcases (rejected Newcomer.forks).1 h with h | h
  · rw [dialable] at h
    cases h
  · exact clear h

/-- With it, the record is signed and can be dialled like before, and the node is rejected for want
of a port. -/
theorem hidden_endpoint :
    SignedRecord.decode TwoAddresses.bytes = some TwoAddresses.signed ∧
      TwoAddresses.signed.Readable ∧
      TwoAddresses.signed.dialable? = some (TwoAddresses.ip, 9000) ∧
      ∃ r, NodeRecord.ofSigned TwoAddresses.signed = .ok r ∧
        r.ip = some (.v4 ⟨10, 0, 0, 1⟩) ∧ r.tcp = none ∧
        Newcomer.forks.candidate r = .error .noTcpPort := by
  refine ⟨TwoAddresses.decode_bytes, by decide +kernel, by decide +kernel, ?_⟩
  exact ⟨⟨Newcomer.key, some (.v4 ⟨10, 0, 0, 1⟩), none, none,
    [(NodeRecord.forkKey, Ssz.encode Newcomer.fork)]⟩, by decide +kernel, rfl, rfl, rfl⟩

end PeerCensus
