import PeerCensus.Peer.Basic

/-!
# Statistics

How the connectable peers divide by client, operating system, country, kind of network, sync status
and version. Others say nothing about the network and are left out.
-/

namespace PeerCensus

/-- How often a name occurs. -/
structure NameCount where
  name : String
  count : Nat
  deriving DecidableEq, Repr

namespace NameCount

/-- Whether `a` is listed before `b`: larger counts first, then by name. -/
def before (a b : NameCount) : Bool :=
  b.count < a.count || (a.count == b.count && !(b.name < a.name))

end NameCount

/-- The different names among `names` with their counts, in the order of `NameCount.before`. Model
of `into_counts`. -/
def counted (names : List String) : List NameCount :=
  (names.eraseDups.map fun name => NameCount.mk name (names.count name)).mergeSort NameCount.before

/-- How many connectable peers there are, and how many of them are synced and not. -/
structure SyncCount where
  total : Nat
  synced : Nat
  unsynced : Nat
  deriving DecidableEq, Repr

/-- The connectable peers of one client by version. -/
structure ClientCount where
  client : Client
  count : Nat
  versions : List NameCount
  deriving DecidableEq, Repr

namespace Statistics

/-- The peers that are counted. -/
def connectable (peers : List Peer) : List Peer :=
  peers.filter Peer.connectable

/-- The counts by client; who has not told is counted under `others`. Model of `by_agent_name`. -/
def byClient (peers : List Peer) : List NameCount :=
  counted ((connectable peers).map fun p => ((p.agent.map Agent.client).getD .others).name)

/-- The counts by operating system; who has not told is counted as unknown. Model of `by_os`. -/
def byOs (peers : List Peer) : List NameCount :=
  counted ((connectable peers).map fun p => ((p.agent.map Agent.os).getD .unknown).name)

/-- The country of a peer in statistics. -/
def countryOf (p : Peer) : String :=
  match p.location with
  | some location => if location.country = "" then "unknown" else location.country
  | none => "unknown"

/-- The counts by country. Model of `by_country`. -/
def byCountry (peers : List Peer) : List NameCount :=
  counted ((connectable peers).map countryOf)

/-- The counts by the use of the network; peers for which it is not known are left out. Model of
`by_network_type`. -/
def byNetwork (peers : List Peer) : List NameCount :=
  counted ((connectable peers).filterMap fun p =>
    (p.location.bind fun location => location.network.usage).map NetworkUsage.name)

/-- Whether a peer is known to be synced. -/
def isSynced (p : Peer) : Bool :=
  p.sync.any SyncStatus.synced

/-- The counts by sync status; a peer whose status is not known counts as unsynced. Model of
`by_sync_status`. -/
def bySync (peers : List Peer) : SyncCount :=
  let peers := connectable peers
  ⟨peers.length, peers.countP isSynced, peers.countP fun p => !isSynced p⟩

/-- The versions of those peers that say that they run the client. -/
def versionsOf (client : Client) (peers : List Peer) : List String :=
  (connectable peers).filterMap fun p =>
    (p.agent.filter fun agent => agent.client = client).map Agent.version

/-- The counts by client and version, larger clients first. Clients of one size keep the order in
which clients are listed. Model of `by_client_version`. -/
def byVersion (peers : List Peer) : List ClientCount :=
  ((Client.all.map fun client =>
      let versions := versionsOf client peers
      ClientCount.mk client versions.length (counted versions)).filter fun c => 0 < c.count).mergeSort
    fun a b => b.count ≤ a.count

end Statistics

end PeerCensus
