import PeerCensus.Bytes
import PeerCensus.Stream.Fault

/-!
# Reading from a stream

A stream hands out its bytes in pieces, each of which may keep the one who reads waiting, and then
ends: closed by the other side, with a fault on every further read, or with no answer ever. A
`Reader` takes bytes off a `Source`; when it fails, what it has taken stays taken.

Results:
* `gather_eq`: what is taken does not depend on how the bytes were split into pieces.
* `pauses_gather`: every pause is waited for once.
-/

namespace PeerCensus

/-- What follows the last byte of a stream. -/
inductive Ending
  /-- The other side has closed the stream. -/
  | closed
  /-- Every further read fails. -/
  | failing (fault : Fault)
  /-- A further read is never answered. -/
  | silent
  deriving DecidableEq, Repr

/-- Bytes that arrive together. -/
structure Piece where
  /-- How many milliseconds one who asks for them has to wait. -/
  pause : Nat
  bytes : Bytes
  deriving DecidableEq

/-- The reading side of a stream. -/
structure Source where
  /-- What is still to come before the ending. -/
  pieces : List Piece
  ending : Ending
  /-- How many milliseconds after the last piece the ending shows. -/
  delay : Nat
  /-- How many milliseconds reads have waited. -/
  waited : Nat
  /-- How many bytes have been taken. -/
  consumed : Nat
  deriving DecidableEq

namespace Source

/-- A source from which nothing has been read. The first read waits for `delay` milliseconds, and
none after it has to wait. -/
def new (pieces : List Bytes) (ending : Ending) (delay : Nat) : Source :=
  ⟨⟨delay, []⟩ :: pieces.map (⟨0, ·⟩), ending, 0, 0, 0⟩

/-- The bytes still to come. -/
def remaining (s : Source) : Bytes :=
  s.pieces.flatMap Piece.bytes

/-- How many milliseconds one waits for all of the pieces. -/
def pauses : List Piece → Nat
  | [] => 0
  | piece :: pieces => piece.pause + pauses pieces

/-- How many milliseconds one waits for all that is to come, the ending included. -/
def due (s : Source) : Nat :=
  pauses s.pieces + s.delay

/-- The first `n` bytes of the pieces, or all there are; how long one waits for them; and what is
left. What is left of a piece is at hand. -/
def gather (n : Nat) : List Piece → Bytes × Nat × List Piece
  | [] => ([], 0, [])
  | piece :: pieces =>
    if piece.bytes.length < n then
      let (bytes, wait, rest) := gather (n - piece.bytes.length) pieces
      (piece.bytes ++ bytes, piece.pause + wait, rest)
    else (piece.bytes.take n, piece.pause, ⟨0, piece.bytes.drop n⟩ :: pieces)

/-- A piece that is too short is gathered as a whole. -/
theorem gather_of_short {n : Nat} {piece : Piece} (h : piece.bytes.length < n)
    (pieces : List Piece) :
    gather n (piece :: pieces) =
      (piece.bytes ++ (gather (n - piece.bytes.length) pieces).1,
        piece.pause + (gather (n - piece.bytes.length) pieces).2.1,
        (gather (n - piece.bytes.length) pieces).2.2) := by
  rw [gather, if_pos h]

/-- Nothing is waited for after a piece that is long enough. -/
theorem gather_of_long {n : Nat} {piece : Piece} (h : ¬ piece.bytes.length < n)
    (pieces : List Piece) :
    gather n (piece :: pieces) =
      (piece.bytes.take n, piece.pause, ⟨0, piece.bytes.drop n⟩ :: pieces) := by
  rw [gather, if_neg h]

theorem gather_eq (n : Nat) (pieces : List Piece) :
    (gather n pieces).1 = (pieces.flatMap Piece.bytes).take n ∧
      (gather n pieces).2.2.flatMap Piece.bytes = (pieces.flatMap Piece.bytes).drop n := by
  induction pieces generalizing n with
  | nil => simp [gather]
  | cons piece pieces ih =>
    by_cases h : piece.bytes.length < n
    · rw [gather_of_short h]
      simp only [List.flatMap_cons, List.take_append, List.drop_append, (ih _).1, (ih _).2,
        List.take_of_length_le (Nat.le_of_lt h), List.drop_of_length_le (Nat.le_of_lt h),
        List.nil_append, and_self]
    · rw [gather_of_long h]
      have h := Nat.le_of_not_lt h
      simp [List.take_append_of_le_length h, List.drop_append_of_le_length h]

@[simp] theorem pauses_cons (piece : Piece) (pieces : List Piece) :
    pauses (piece :: pieces) = piece.pause + pauses pieces := rfl

theorem pauses_gather (n : Nat) (pieces : List Piece) :
    (gather n pieces).2.1 + pauses (gather n pieces).2.2 = pauses pieces := by
  induction pieces generalizing n with
  | nil => rfl
  | cons piece pieces ih =>
    by_cases h : piece.bytes.length < n
    · rw [gather_of_short h, pauses_cons, Nat.add_assoc, ih]
    · rw [gather_of_long h, pauses_cons, pauses_cons, Nat.zero_add]

/-- The source once its ending shows. -/
def ended (s : Source) : Source :=
  { s with delay := 0, waited := s.waited + s.delay }

/-- Takes up to `n` bytes. If there are fewer, they are followed by the ending. -/
def take (n : Nat) (s : Source) : Bytes × Source :=
  let (bytes, wait, rest) := gather n s.pieces
  let s := { s with
    pieces := rest, waited := s.waited + wait, consumed := s.consumed + bytes.length }
  (bytes, if bytes.length < n then s.ended else s)

/-- The pieces that come within `deadline` milliseconds. -/
def early (deadline : Nat) : List Piece → List Piece
  | [] => []
  | piece :: pieces =>
    if piece.pause ≤ deadline then piece :: early (deadline - piece.pause) pieces else []

/-- What a source looks like to someone who gives up after `deadline` milliseconds: what comes later
than that does not come. -/
def upTo (deadline : Nat) (s : Source) : Source :=
  if s.due ≤ deadline then s
  else { s with pieces := early deadline s.pieces, ending := .silent }

@[simp] theorem waited_upTo (deadline : Nat) (s : Source) : (s.upTo deadline).waited = s.waited := by
  rw [upTo]
  split <;> rfl

end Source

/-- Takes bytes off a source. -/
abbrev Reader (ε α : Type) := ExceptT (Halt ε) (StateM Source) α

namespace Reader

/-- A reader that fails. -/
def fail (error : ε) : Reader ε α :=
  throw (.failed error)

/-- The reader's result for a result at hand. -/
def ofExcept : Except ε α → Reader ε α
  | .ok a => pure a
  | .error e => fail e

/-- The reader with its errors changed. -/
def mapError (f : ε → ε') (r : Reader ε α) : Reader ε' α := fun s =>
  match r s with
  | (.ok a, s) => (.ok a, s)
  | (.error (.failed e), s) => (.error (.failed (f e)), s)
  | (.error .hung, s) => (.error .hung, s)

/-- The fault of a stream that is closed too early. -/
def earlyEnd : Fault := ⟨.unexpectedEnd, "early eof"⟩

/-- Takes the next byte; `none` when the stream is closed before it. -/
def byte? : Reader Fault (Option UInt8) := fun s =>
  match s.take 1 with
  | (b :: _, s) => (.ok (some b), s)
  | ([], s) =>
    match s.ending with
    | .closed => (.ok none, s)
    | .failing fault => (.error (.failed fault), s)
    | .silent => (.error .hung, s)

/-- Takes exactly `n` bytes. Nothing is read when none are wanted. -/
def exactly (n : Nat) : Reader Fault Bytes := fun s =>
  if n = 0 then (.ok [], s)
  else
    let (bytes, s) := s.take n
    if bytes.length = n then (.ok bytes, s)
    else
      match s.ending with
      | .closed => (.error (.failed earlyEnd), s)
      | .failing fault => (.error (.failed fault), s)
      | .silent => (.error .hung, s)

end Reader

end PeerCensus
