import PeerCensus.Keeper.Outcome

/-!
# Sequences of attempts

A peer is tried several times in a row, with a pause between attempts, until it answers. When the
keeper shuts down, no further attempt is begun; the one under way is brought to its end and counts.
-/

namespace PeerCensus

/-- The attempts of a sequence and what they came to. -/
structure Sequence where
  /-- When each attempt was begun, and the attempt. -/
  attempts : List (Nat × Attempt)
  verdict : Verdict
  /-- When the verdict was clear. -/
  ended : Nat

namespace Sequence

/-- The times at which the sequence goes on after a wait, in order. -/
def steps (s : Sequence) : List Nat :=
  s.attempts.flatMap (fun (begun, a) => begun :: Attempt.waitEnds begun a.waits) ++ [s.ended]

/-- Whether a shutdown at the time `shutdown`, if any, has come by the time `now`. -/
def shutBy (shutdown : Option Nat) (now : Nat) : Bool :=
  shutdown.any fun s => s ≤ now

/-- The sequence with an attempt made before it. -/
def after (now : Nat) (a : Attempt) (s : Sequence) : Sequence :=
  { s with attempts := (now, a) :: s.attempts }

/-- The rest of a sequence with one attempt and up to `retries` more, from the time `now` on.
`attempt n` is what the attempt number `n` comes to, and `pause` the time between attempts. Model of
the loop of `probe_sequence`. -/
def runFrom (attempt : Nat → Attempt) (pause : Nat) (shutdown : Option Nat) (n : Nat)
    (retries now : Nat) : Sequence :=
  if shutBy shutdown now then ⟨[], .cancelled, now⟩
  else
    let a := attempt n
    let ended := now + a.elapsed
    match a.result with
    | .ok findings => ⟨[(now, a)], .answered findings, ended⟩
    | .error _ =>
      match retries with
      | 0 => ⟨[(now, a)], .exhausted, ended⟩
      | retries + 1 =>
        if shutBy shutdown (ended + pause) then
          ⟨[(now, a)], .cancelled, max ended (shutdown.getD ended)⟩
        else (runFrom attempt pause shutdown (n + 1) retries (ended + pause)).after now a

/-- The sequence of `attempts` attempts, but at least one, begun at the time `now`. Model of
`probe_sequence`. -/
def run (attempt : Nat → Attempt) (attempts pause : Nat) (shutdown : Option Nat) (now : Nat) :
    Sequence :=
  runFrom attempt pause shutdown 0 (attempts - 1) now

end Sequence

end PeerCensus
