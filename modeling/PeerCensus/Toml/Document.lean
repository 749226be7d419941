import PeerCensus.Toml.Moment
import PeerCensus.Toml.Number
import PeerCensus.Toml.Text
import PeerCensus.Toml.Value

/-!
# Documents

A document is a list of lines: headers of tables, headers of tables that share a name, and keys with
their values. A key has at most 79 names, and arrays and tables in braces are nested at most 79
deep.
-/

namespace PeerCensus.Toml

/-- What a line says. -/
inductive Line
  | table (path : Path)
  | element (path : Path)
  | entry (path : Path) (value : Value)

/-- How deep keys and values may be nested. -/
def depthLimit : Nat := 79

namespace Scan

/-- Whether `c` can stand in a name without quotes. -/
def isBare (c : Char) : Bool := c.isAlphanum || c == '-' || c == '_'

/-- Reads a name. -/
def name : Scan String :=
  basic <|> literal <|> (do return String.ofList (← many1 (satisfying isBare)))

/-- Reads a key. -/
def key : Scan Path := do
  let names ← separated (spaces *> name <* spaces) '.'
  match names.getLast? with
  | some last => if names.length ≤ depthLimit then return ⟨names.dropLast, last⟩ else failure
  | none => failure

/-- Reads an array of values that `value` reads. -/
def array (value : Scan Value) : Scan Value := do
  char '['
  let items ← separated (gap *> value <* gap) ','
  if items.length ≠ 0 then
    let _ ← optional (char ',')
  gap
  char ']'
  return .array items

/-- Reads a table in braces of values that `value` reads. -/
def inlineTable (value : Scan Value) : Scan Value := do
  char '{'
  let pairs ← separated (do
    let path ← key
    char '='
    spaces
    let v ← value
    spaces
    return (path, v)) ','
  spaces
  char '}'
  match Entries.ofPairs pairs with
  | some entries => return .table .inline entries
  | none => failure

/-- Reads a value without parts. A number that could be the beginning of a longer form is tried
last. -/
def scalar : Scan Value :=
  .string <$> string <|> .moment <$> written moment <|> .float <$> written float <|>
    .integer <$> integer <|> (do word "true"; return .boolean true) <|>
    (do word "false"; return .boolean false)

/-- Reads a value that is nested at most `depth` deep. -/
def value : Nat → Scan Value
  | 0 => scalar
  | depth + 1 => scalar <|> array (value depth) <|> inlineTable (value depth)

/-- Reads a header between brackets. -/
def header (opening closing : String) : Scan Path := do
  word opening
  let path ← key
  word closing
  return path

/-- Reads a line; a line without words says nothing. -/
def line : Scan (Option Line) := do
  spaces
  (do newline; return none) <|> (do comment; newline <|> finished; return none) <|> do
    let said ← (.element <$> header "[[" "]]") <|> (.table <$> header "[" "]") <|> do
      let path ← key
      char '='
      spaces
      return .entry path (← value depthLimit)
    lineEnd
    return some said

/-- Reads all lines. A byte order mark may stand before them. -/
def document : Scan (List Line) := do
  let _ ← optional (char '\ufeff')
  let lines ← many line
  spaces
  return lines.filterMap id

end Scan

/-- A document as far as it has been read: its tables, and the header that the entries which follow
belong to. -/
structure Document where
  root : Entries
  current : List String

namespace Document

/-- The document with one more line. -/
def add (d : Document) : Line → Option Document
  | .table path => (d.root.openTable path).map fun root => ⟨root, path.parents ++ [path.name]⟩
  | .element path => (d.root.openElement path).map fun root => ⟨root, path.parents ++ [path.name]⟩
  | .entry path value =>
    (d.root.changeAt false (fun origin entries => entries.define path value origin) d.current
      .header).map fun root => { d with root }

end Document

/-- The document that a text is. -/
def parse (text : String) : Option Entries := do
  let lines ← Scan.document.whole text
  return (← lines.foldlM Document.add ⟨[], []⟩).root

end PeerCensus.Toml
