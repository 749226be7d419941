/-!
# Values and tables

What a TOML document says. A table remembers how it came about, because that decides how it may
grow: a table with a header is complete, one that only stands on the way to another may still get a
header, one written by dotted keys gets no header, and one in braces never grows.

Results:
* `set_of_lookup_eq_none`: a new name is added at the end.
* `lookup_set`: what has been set is found, and nothing else changes.
-/

namespace PeerCensus.Toml

/-- How a table came about. -/
inductive Origin
  /-- It has a header of its own, or is the whole document. -/
  | header
  /-- It stands on the way to a table with a header. -/
  | implied
  /-- It stands on the way of a dotted key. -/
  | dotted
  /-- It is written in braces. -/
  | inline
  deriving DecidableEq, Repr

/-- A value. Numbers with a point and moments are kept as they are written. -/
inductive Value
  | string (text : String)
  | integer (n : Int)
  | float (text : String)
  | boolean (b : Bool)
  | moment (text : String)
  | array (items : List Value)
  | table (origin : Origin) (entries : List (String × Value))
  /-- Tables that share a header in double brackets. -/
  | tables (elements : List (List (String × Value)))

/-- The named values of a table, each name once, in the order of their first mention. -/
abbrev Entries := List (String × Value)

namespace Entries

/-- The entries with `value` under `name`. -/
def set (name : String) (value : Value) : Entries → Entries
  | [] => [(name, value)]
  | e :: rest => if e.1 = name then (name, value) :: rest else e :: set name value rest

theorem lookup_cons (name other : String) (value : Value) (entries : Entries) :
    List.lookup other ((name, value) :: entries) =
      if other = name then some value else entries.lookup other := by
  by_cases h : other = name
  · simp [h]
  · rw [List.lookup_cons, beq_eq_false_iff_ne.2 h, if_neg h]

theorem set_of_lookup_eq_none {name : String} {value : Value} {entries : Entries}
    (h : entries.lookup name = none) : set name value entries = entries ++ [(name, value)] := by
  induction entries with
  | nil => rfl
  | cons e rest ih =>
    rw [lookup_cons] at h
    split at h
    · cases h
    · rename_i hne
      simp [set, Ne.symm hne, ih h]

theorem lookup_set (name other : String) (value : Value) (entries : Entries) :
    (set name value entries).lookup other =
      if other = name then some value else entries.lookup other := by
  induction entries with
  | nil => exact lookup_cons name other value []
  | cons e rest ih =>
    rw [set, lookup_cons e.1 other e.2 rest]
    split
    · rename_i he
      rw [lookup_cons, he]
      split <;> rfl
    · rename_i he
      rw [lookup_cons e.1 other e.2, ih]
      by_cases ho : other = name
      · simp [ho, Ne.symm he]
      · simp [ho]

/-- Changes the table at the end of `path`, counted from a table of the given origin, and makes the
tables on the way that are not there yet. On the way of a dotted key there must be no table that is
complete. -/
def changeAt (dotted : Bool) (change : Origin → Entries → Option Entries) :
    List String → Origin → Entries → Option Entries
  | [], origin, entries => change origin entries
  | name :: path, _, entries => do
    match entries.lookup name with
    | none =>
      let origin := if dotted then .dotted else .implied
      return set name (.table origin (← changeAt dotted change path origin [])) entries
    | some (.table origin inner) =>
      if origin = .inline ∨ (dotted ∧ origin = .header) then none
      return set name (.table origin (← changeAt dotted change path origin inner)) entries
    | some (.tables elements) =>
      let last ← changeAt dotted change path .header (← elements.getLast?)
      return set name (.tables (elements.dropLast ++ [last])) entries
    | some _ => none

end Entries

/-- The name of a value and the tables on the way to it. -/
structure Path where
  parents : List String
  name : String
  deriving DecidableEq, Repr

namespace Entries

/-- The document with a table whose header is `path`. -/
def openTable (path : Path) (root : Entries) : Option Entries :=
  root.changeAt false (fun _ entries =>
    match entries.lookup path.name with
    | none => some (set path.name (.table .header []) entries)
    | some (.table .implied inner) => some (set path.name (.table .header inner) entries)
    | some _ => none) path.parents .header

/-- The document with one more table under the header `path` in double brackets. -/
def openElement (path : Path) (root : Entries) : Option Entries :=
  root.changeAt false (fun _ entries =>
    match entries.lookup path.name with
    | none => some (set path.name (.tables [[]]) entries)
    | some (.tables elements) => some (set path.name (.tables (elements ++ [[]])) entries)
    | some _ => none) path.parents .header

/-- The entries of a table of the given origin with a value under a key. A name is given a value only
once, and a table with a header gets no entries by dotted keys. -/
def define (path : Path) (value : Value) (origin : Origin) (entries : Entries) : Option Entries :=
  entries.changeAt true (fun origin entries =>
    if path.parents ≠ [] ∧ origin ≠ .dotted then none
    else if (entries.lookup path.name).isSome then none
    else some (set path.name value entries)) path.parents origin

/-- The entries of a table in braces. -/
def ofPairs (pairs : List (Path × Value)) : Option Entries :=
  pairs.foldlM (fun entries (path, value) => entries.define path value .inline) []

end Entries

end PeerCensus.Toml
