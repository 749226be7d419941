import PeerCensus.Host.Behaviour
import PeerCensus.Peer.Basic
import PeerCensus.Rpc.Handshake

/-!
# Attempts

One attempt on a peer: connect, open a stream, exchange status on it, and ask the peer who it is,
each under one deadline. Who the peer is may remain unknown; everything else must succeed. A
connection that was made is always given up at the end.
-/

namespace PeerCensus

/-- What an attempt finds out. -/
structure Findings where
  status : Status
  /-- Who the peer is, if it said so in time. -/
  identity : Option Identity
  deriving DecidableEq

/-- Why an attempt failed. -/
inductive ProbeError
  | connect (error : HostError)
  | stream (error : HostError)
  | status (error : RpcError)
  deriving DecidableEq

namespace ProbeError

/-- The text of the error behind this one. -/
def source : ProbeError → String
  | connect e => e.message
  | stream e => e.message
  | status e => e.message

/-- The text shown for the error. -/
def message : ProbeError → String
  | connect e => "connect failed: " ++ e.message
  | stream e => "status stream failed: " ++ e.message
  | status e => "status exchange failed: " ++ e.message

end ProbeError

/-- One attempt on a peer. -/
structure Attempt where
  result : Except ProbeError Findings
  /-- What was asked of the host, in order. -/
  calls : List HostCall
  /-- How many milliseconds it waited for each answer, in order. -/
  waits : List Nat

namespace Attempt

/-- How many milliseconds it took. -/
def elapsed (a : Attempt) : Nat := a.waits.foldl (· + ·) 0

/-- The times at which waits of the given lengths end, one after another from the time `now` on. -/
def waitEnds (now : Nat) : List Nat → List Nat
  | [] => []
  | wait :: waits => (now + wait) :: waitEnds (now + wait) waits

/-- Asks a peer who it is, after it has told its status. -/
def identify (deadline : Nat) (b : Behaviour) (status : Status) : Attempt :=
  let (identity, identifying) := b.identify.within deadline
  ⟨.ok ⟨status, identity.toOption⟩, [.identify], [identifying]⟩

/-- What is done over a connection, except for giving it up. -/
def exchange (deadline : Nat) (p : Peer) (b : Behaviour) : Attempt :=
  let protocol := Rpc.statusMethod.protocol
  match b.openStream.within deadline with
  | (.error e, opening) => ⟨.error (.stream e), [.openStream protocol none], [opening]⟩
  | (.ok (), opening) =>
    let outcome := Rpc.handshake p.forkId.digest deadline b.stream
    let opened := HostCall.openStream protocol (some outcome.stream.sink)
    match outcome.result with
    | .error e => ⟨.error (.status e), [opened], [opening, outcome.elapsed]⟩
    | .ok status =>
      let rest := identify deadline b status
      ⟨rest.result, opened :: rest.calls, opening :: outcome.elapsed :: rest.waits⟩

/-- One attempt on the peer `p`, which meets it with the behaviour `b`. Model of `attempt`. -/
def run (deadline : Nat) (p : Peer) (b : Behaviour) : Attempt :=
  let connect := HostCall.connect p.dialInfo
  match b.connect.within deadline with
  | (.error e, connecting) => ⟨.error (.connect e), [connect], [connecting]⟩
  | (.ok (), connecting) =>
    let rest := exchange deadline p b
    ⟨rest.result, connect :: rest.calls ++ [.disconnect], connecting :: rest.waits⟩

end Attempt

end PeerCensus
