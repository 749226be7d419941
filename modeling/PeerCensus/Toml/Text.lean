import PeerCensus.Text.Numeral
import PeerCensus.Toml.Scan

/-!
# Strings of a document

Four kinds of strings: in double quotes a backslash starts an escape, in single quotes every
character stands for itself, and each of them can go over several lines between three quotes. There
the end of a line right after the opening quotes is left out, every other one is a line feed, and
one or two quotes in a row are part of the text.
-/

namespace PeerCensus.Toml.Scan

/-- Reads the character whose code point has `n` hexadecimal digits. -/
def codePoint (n : Nat) : Scan Char := do
  let code := Numeral.value 16 (← times (satisfying (Numeral.isDigit 16)) n)
  if code.isValidChar then return Char.ofNat code else failure

/-- The escapes of one letter. -/
def escapes : List (Char × Char) :=
  [('b', '\x08'), ('t', '\t'), ('n', '\n'), ('f', '\x0c'), ('r', '\r'), ('"', '"'), ('\\', '\\')]

/-- Reads a backslash and what it stands for. -/
def escaped : Scan Char := do
  char '\\'
  match ← satisfying fun _ => true with
  | 'u' => codePoint 4
  | 'U' => codePoint 8
  | c =>
    match escapes.lookup c with
    | some c => return c
    | none => failure

/-- Whether `c` can stand in double quotes as itself. -/
def isBasic (c : Char) : Bool := isPrinted c && c != '"' && c != '\\'

/-- Whether `c` can stand in single quotes. -/
def isLiteral (c : Char) : Bool := isPrinted c && c != '\''

/-- Reads a string in double quotes. -/
def basic : Scan String := do
  char '"'
  let text ← many (satisfying isBasic <|> escaped)
  char '"'
  return String.ofList text

/-- Reads a string in single quotes. -/
def literal : Scan String := do
  char '\''
  let text ← many (satisfying isLiteral)
  char '\''
  return String.ofList text

/-- Reads two quotes or one before something that `next` could read. -/
def quotesBefore (q : Char) (next : Scan Unit) : Scan (List Char) :=
  (do char q; char q; ahead next; return [q, q]) <|> (do char q; ahead next; return [q])

/-- Reads a text between three quotes that goes over several lines and is made of `piece`s. -/
def multiline (q : Char) (piece : Scan (List Char)) : Scan String := do
  let quotes : Scan Unit := do char q; char q; char q
  let other : Scan Unit := do let _ ← satisfying (· != q)
  quotes
  let _ ← optional newline
  let text ← many (piece <|> quotesBefore q other <|> (do newline; return ['\n']))
  let last ← optional (quotesBefore q quotes)
  quotes
  return String.ofList (text.flatten ++ last.getD [])

/-- Reads a backslash at the end of a line, and all blanks and ends of lines after it. -/
def continuation : Scan Unit := do
  char '\\'
  spaces
  newline
  let _ ← many ((do let _ ← satisfying isSpace) <|> newline)

/-- Reads a string over several lines in double quotes. -/
def multilineBasic : Scan String :=
  multiline '"' ((do return [← satisfying isBasic]) <|> (do continuation; return []) <|>
    (do return [← escaped]))

/-- Reads a string over several lines in single quotes. -/
def multilineLiteral : Scan String :=
  multiline '\'' (do return [← satisfying isLiteral])

/-- Reads a string of any kind. -/
def string : Scan String :=
  multilineBasic <|> basic <|> multilineLiteral <|> literal

end PeerCensus.Toml.Scan
