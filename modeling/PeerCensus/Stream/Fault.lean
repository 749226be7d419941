/-!
# Faults of streams and files

What can go wrong below the protocols: a kind that programs decide by, and a text for people. An
operation on a stream that does not finish has failed, or it is never answered.
-/

namespace PeerCensus

/-- The kind of a fault. -/
inductive FaultKind
  | unexpectedEnd
  | reset
  | aborted
  | brokenPipe
  | timedOut
  | refused
  | notConnected
  | invalidData
  | wouldBlock
  | permissionDenied
  | writeZero
  | notFound
  | isDirectory
  | other
  deriving DecidableEq, Repr

/-- A fault below the protocols. -/
structure Fault where
  kind : FaultKind
  /-- The text shown for the fault. -/
  text : String
  deriving DecidableEq, Repr

/-- Why an operation on a stream did not finish. -/
inductive Halt (ε : Type)
  | failed (error : ε)
  /-- The operation is never answered. -/
  | hung
  deriving DecidableEq

/-- The halt with its error changed. -/
def Halt.map (f : ε → ε') : Halt ε → Halt ε'
  | failed error => .failed (f error)
  | hung => .hung

end PeerCensus
