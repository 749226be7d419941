import PeerCensus.Bytes
import PeerCensus.Stream.Fault

/-!
# Writing to a stream

The writing side of a stream accepts bytes up to some number. From then on it fails or never answers,
at the next write or already when the last bytes are flushed; so it may do when it is closed. Bytes
accepted before that have been sent. Whoever writes may first have to wait until bytes are accepted.
-/

namespace PeerCensus

/-- The writing side of a stream. -/
structure Sink where
  /-- The bytes sent so far. -/
  sent : Bytes
  /-- How many bytes are accepted in all, and why the write after them does not finish. -/
  limit : Option (Nat × Halt Fault)
  /-- Whether this shows before another write, when the last bytes accepted are flushed. -/
  failsFlushing : Bool
  /-- Why closing does not finish. -/
  closingHalt : Option (Halt Fault)
  /-- Whether the writing side has been closed. -/
  closed : Bool
  /-- How many milliseconds the next write waits. -/
  delay : Nat
  /-- How many milliseconds writes have waited. -/
  waited : Nat
  deriving DecidableEq

namespace Sink

/-- A sink that accepts everything. -/
def unlimited : Sink := ⟨[], none, false, none, false, 0, 0⟩

/-- The sink once it accepts bytes. -/
def ready (s : Sink) : Sink :=
  { s with delay := 0, waited := s.waited + s.delay }

/-- Sends all of `bytes`, or as many as are accepted. -/
def writeAll (bytes : Bytes) (s : Sink) : Except (Halt Fault) Unit × Sink :=
  match s.limit with
  | none => (.ok (), { s with sent := s.sent ++ bytes })
  | some (limit, halt) =>
    let room := limit - s.sent.length
    let s' := { s with sent := s.sent ++ bytes.take room }
    if bytes.length ≤ room then (.ok (), s') else (.error halt, s')

/-- Flushes the bytes accepted so far. -/
def flush (s : Sink) : Except (Halt Fault) Unit × Sink :=
  match s.limit with
  | none => (.ok (), s)
  | some (limit, halt) =>
    if s.failsFlushing && limit ≤ s.sent.length then (.error halt, s) else (.ok (), s)

/-- Closes the writing side. -/
def close (s : Sink) : Except (Halt Fault) Unit × Sink :=
  match s.closingHalt with
  | some halt => (.error halt, s)
  | none => (.ok (), { s with closed := true })

/-- What a sink looks like to someone who gives up after `deadline` milliseconds: if it accepts bytes
later than that, it accepts none. -/
def upTo (deadline : Nat) (s : Sink) : Sink :=
  if s.delay ≤ deadline then s
  else { s with limit := some (s.sent.length, .hung), failsFlushing := true }

theorem ready_of_settled {s : Sink} (h : s.delay = 0) : s.ready = s := by
  obtain ⟨sent, limit, failsFlushing, closingHalt, closed, delay, waited⟩ := s
  subst h
  rfl

@[simp] theorem waited_upTo (deadline : Nat) (s : Sink) : (s.upTo deadline).waited = s.waited := by
  rw [upTo]
  split <;> rfl

end Sink

end PeerCensus
