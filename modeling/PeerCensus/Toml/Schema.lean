import PeerCensus.Toml.Value

/-!
# What values are taken for

Reading a document's values as what a program expects there: numbers, texts, lists and sections with
known names. A section is a table, or a list of its values in the order of the names.
-/

namespace PeerCensus.Toml.Value

/-- The number that a value is, if it is not negative. -/
def natural? : Value → Option Nat
  | .integer n => if 0 ≤ n then some n.toNat else none
  | _ => none

/-- The text that a value is. -/
def string? : Value → Option String
  | .string text => some text
  | _ => none

/-- The values that a value is a list of. -/
def items? : Value → Option (List Value)
  | .array items => some items
  | .tables elements => some (elements.map (.table .header))
  | _ => none

/-- The entries of a section by their names. A table must have no other names than `names`; of a
list the first `needed` values must be there, and those that are too many are passed over. -/
def section? (names : List String) (needed : Nat) : Value → Option (String → Option Value)
  | .table _ entries =>
    if entries.all fun e => names.contains e.1 then some fun name => entries.lookup name else none
  | value => do
    let items ← value.items?
    if items.length < needed then none
    return fun name => items[names.idxOf name]?

end PeerCensus.Toml.Value
