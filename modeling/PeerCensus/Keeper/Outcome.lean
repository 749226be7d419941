import PeerCensus.Host.Probe
import PeerCensus.Store.PeerStore

/-!
# Outcomes

What a sequence of attempts does to the stored peer. An answer restores the score and refreshes what
the peer said; silence lowers the score, and a peer whose score has become bad is removed. The
peer that is written is the one the sequence started with, changed by what was found out.
-/

namespace PeerCensus

/-- How the attempts of a sequence ended. -/
inductive Verdict
  /-- An attempt succeeded. -/
  | answered (findings : Findings)
  /-- Every attempt failed. -/
  | exhausted
  /-- The sequence was given up before it was clear. -/
  | cancelled
  deriving DecidableEq

/-- What became of the peer of a sequence. -/
inductive Conclusion
  | connected
  | demoted (score : Score)
  | evicted
  | cancelled
  /-- The store did not take the outcome. -/
  | storeFailed (error : StoreError)
  deriving DecidableEq

/-- What is told of the place of an address. -/
abbrev Resolver := Ip → Except LocationError Location

namespace Peer

/-- The location of a peer: the one that is known, or else the one that can be found now. -/
def locate (resolve : Resolver) (p : Peer) : Option Location :=
  match p.location with
  | some location => some location
  | none => (resolve p.ip).toOption

/-- The peer with what it said about itself. -/
def identified (identity : Identity) (p : Peer) : Peer :=
  { p with
    protocolVersion := some identity.protocolVersion
    agent := some (Agent.parse identity.agentVersion)
    agentText := some identity.agentVersion }

/-- The peer after it has answered at the time `now`. Model of what `record_success` writes. -/
def refreshed (clock : ChainClock) (resolve : Resolver) (now : Nat) (findings : Findings) (p : Peer) :
    Peer :=
  let told := match findings.identity with
    | some identity => p.identified identity
    | none => p
  { told with
    score := .good
    connectable := true
    sync := some (clock.classify findings.status.headSlot.toNat now)
    location := p.locate resolve
    lastConnected := some now
    lastUpdated := now }

/-- The peer after it has not answered at the time `now`. Model of what `record_failure` writes. -/
def demoted (now : Nat) (p : Peer) : Peer :=
  { p with score := p.score.lowered, lastUpdated := now }

end Peer

namespace Verdict

/-- The conclusion of a call to the store. -/
def settled (done : Conclusion) : Except StoreError Unit × PeerStore → Conclusion × PeerStore
  | (.ok (), store) => (done, store)
  | (.error e, store) => (.storeFailed e, store)

/-- Stores the outcome of a sequence of attempts on the peer `p` that ended at the time `now`. Model
of `record_success` and `record_failure`. -/
def conclude (clock : ChainClock) (resolve : Resolver) (now : Nat) (p : Peer) (store : PeerStore) :
    Verdict → Conclusion × PeerStore
  | answered findings =>
    settled .connected (store.update (p.refreshed clock resolve now findings))
  | exhausted =>
    if p.score.lowered.isBad then settled .evicted (store.delete p.id)
    else settled (.demoted p.score.lowered) (store.update (p.demoted now))
  | cancelled => (.cancelled, store)

theorem snd_settled (done : Conclusion) (r : Except StoreError Unit × PeerStore) :
    (settled done r).2 = r.2 := by
  unfold settled
  split <;> rfl

end Verdict

end PeerCensus
