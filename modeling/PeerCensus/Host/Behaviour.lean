import PeerCensus.Host.Error
import PeerCensus.Rpc.Method

/-!
# Behaviours

How a peer meets an attempt to reach it: what comes of connecting, of opening a stream, of the bytes
on the stream and of asking who it is. Each answer takes its time or never comes. A `Host` gives the
behaviour that a peer shows at each connection.

Results:
* `elapsed_within_le`: under a deadline an answer takes no longer than the deadline.
-/

namespace PeerCensus

/-- What a peer says about itself. -/
structure Identity where
  protocolVersion : String
  agentVersion : String
  deriving DecidableEq

/-- The text of an identity. -/
def Identity.render (i : Identity) : String :=
  i.agentVersion ++ " (" ++ i.protocolVersion ++ ")"

/-- The answer to one operation of the host. -/
inductive Step (α : Type)
  /-- There is never an answer. -/
  | silent
  /-- The answer comes after `delay` milliseconds. -/
  | answers (delay : Nat) (result : Except HostError α)

namespace Step

/-- What an operation comes to that is given up after `deadline` milliseconds, and how many
milliseconds it takes. An answer at the deadline is in time. -/
def within (deadline : Nat) : Step α → Except HostError α × Nat
  | silent => (.error .timeout, deadline)
  | answers delay result =>
    if delay ≤ deadline then (result, delay) else (.error .timeout, deadline)

theorem elapsed_within_le (deadline : Nat) (s : Step α) : (s.within deadline).2 ≤ deadline := by
  unfold within
  split
  · exact Nat.le_refl _
  · split
    · assumption
    · exact Nat.le_refl _

end Step

/-- How a peer meets one attempt. -/
structure Behaviour where
  connect : Step Unit
  /-- The answer to opening a stream. -/
  openStream : Step Unit
  /-- The stream, once it is open. -/
  stream : Rpc.Duplex
  identify : Step Identity

/-- The behaviour of each peer at each of its connections, counted from zero. -/
abbrev Host := PeerId → Nat → Behaviour

/-- An operation of the host that has been asked for. -/
inductive HostCall
  | connect (target : DialInfo)
  /-- Opening a stream, and what was sent on it if it was opened. -/
  | openStream (protocol : String) (sent : Option Sink)
  | identify
  | disconnect
  deriving DecidableEq

namespace HostCall

/-- Whether a connection is asked for. -/
def isConnect : HostCall → Bool
  | connect _ => true
  | _ => false

end HostCall

end PeerCensus
