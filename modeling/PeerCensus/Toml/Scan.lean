/-!
# Scanning

Readers of the front of a text: what they have read and what is left, or nothing if the text does
not begin as it should. A reader that fails has read nothing, so that another one can be tried.

Results:
* `many_satisfying`: reading characters that pass a test splits the text before the first one that
  does not.
-/

namespace PeerCensus.Toml

/-- A reader of the front of a text. -/
abbrev Scan (α : Type) := StateT (List Char) Option α

namespace Scan

/-- Reads one character that passes the test. -/
def satisfying (p : Char → Bool) : Scan Char
  | [] => none
  | c :: rest => if p c then some (c, rest) else none

/-- Reads the character `c`. -/
def char (c : Char) : Scan Unit := do
  let _ ← satisfying (· == c)

/-- Reads `word`. -/
def word (word : String) : Scan Unit :=
  word.toList.forM char

/-- Does what `p` does if it can. -/
def optional (p : Scan α) : Scan (Option α) :=
  some <$> p <|> pure none

/-- Makes sure that `p` could read, without reading. -/
def ahead (p : Scan α) : Scan Unit := fun s =>
  (p s).map fun _ => ((), s)

/-- Reads with `p` as often as it can, but no more often than `bound` is long. -/
def manyUpTo (p : Scan α) : List Char → List Char → List α × List Char
  | [], s => ([], s)
  | _ :: bound, s =>
    match p s with
    | none => ([], s)
    | some (a, rest) =>
      let (all, rest) := manyUpTo p bound rest
      (a :: all, rest)

/-- Reads with `p` as often as it can. Each time it reads at least one character, so that the whole
text is bound enough. -/
def many (p : Scan α) : Scan (List α) := fun s => some (manyUpTo p s s)

/-- Reads with `p` at least once. -/
def many1 (p : Scan α) : Scan (List α) := do
  return (← p) :: (← many p)

/-- Reads with `p` any number of times, with `sep` in between. -/
def separated (p : Scan α) (sep : Char) : Scan (List α) :=
  (do return (← p) :: (← many (char sep *> p))) <|> pure []

/-- Reads with `p` exactly `n` times. -/
def times (p : Scan α) : Nat → Scan (List α)
  | 0 => pure []
  | n + 1 => do return (← p) :: (← times p n)

/-- The text that `p` reads. -/
def written (p : Scan α) : Scan String := fun s =>
  (p s).map fun (_, rest) => (String.ofList (s.take (s.length - rest.length)), rest)

/-- What `p` reads of a whole text. -/
def whole (p : Scan α) (text : String) : Option α :=
  match p text.toList with
  | some (a, []) => some a
  | _ => none

theorem manyUpTo_satisfying (p : Char → Bool) (bound s : List Char) (h : s.length ≤ bound.length) :
    manyUpTo (satisfying p) bound s = (s.takeWhile p, s.dropWhile p) := by
  induction bound generalizing s with
  | nil => simp_all [manyUpTo]
  | cons _ bound ih =>
    cases s with
    | nil => rfl
    | cons c rest =>
      rw [manyUpTo, satisfying]
      by_cases hc : p c
      · simp [hc, ih rest (by simpa using h)]
      · simp [hc]

theorem many_satisfying (p : Char → Bool) (s : List Char) :
    many (satisfying p) s = some (s.takeWhile p, s.dropWhile p) := by
  rw [many, manyUpTo_satisfying p s s (Nat.le_refl _)]

/-! ## Blanks and the ends of lines -/

/-- Whether `c` separates words within a line. -/
def isSpace (c : Char) : Bool := c == ' ' || c == '\t'

/-- Whether `c` is a character of a line that is written as itself: no control character other than
the tab. -/
def isPrinted (c : Char) : Bool :=
  c == '\t' || (' ' ≤ c && c != '\x7f')

/-- Passes over spaces. -/
def spaces : Scan Unit := do
  let _ ← many (satisfying isSpace)

/-- Reads the end of a line. -/
def newline : Scan Unit := char '\n' <|> word "\r\n"

/-- Reads a comment up to the end of the line. -/
def comment : Scan Unit := do
  char '#'
  let _ ← many (satisfying isPrinted)

/-- Makes sure that nothing is left. -/
def finished : Scan Unit
  | [] => some ((), [])
  | _ :: _ => none

/-- Reads what may stand after the last word of a line, with the end of the line. -/
def lineEnd : Scan Unit := do
  spaces
  let _ ← optional comment
  newline <|> finished

/-- Passes over spaces, comments and the ends of lines. -/
def gap : Scan Unit := do
  let _ ← many ((do let _ ← satisfying isSpace) <|> newline <|> comment *> newline)

end Scan

end PeerCensus.Toml
