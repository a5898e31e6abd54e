import Likeness.Keyed
import Likeness.Toml.Value

/-!
# Tables under construction

While a document is read, a table remembers how it came to be, since that decides what may still be added to it: a table
with a header of its own, a table that only a longer header or key implies, or a table that dotted keys have opened.

* `Entries.assign` sets a dotted key in a table;
* `Entries.openTable` and `Entries.openArrayTable` are what headers do;
* `entryValues` forgets how the tables came to be.

All of them refuse what would define something twice.
-/

namespace Likeness.Toml

/-- How a table came to be. -/
inductive Origin where
  /-- By a header of its own. -/
  | header
  /-- By the header of a table below it. -/
  | implied
  /-- By a dotted key. -/
  | dotted
  deriving DecidableEq, Repr

/-- What a key of a table under construction holds. -/
inductive Item where
  | value (v : Value)
  | table (origin : Origin) (entries : List (Key × Item))
  /-- An array of tables, each with a header of its own. -/
  | tables (tables : List (List (Key × Item)))

/-- The entries of a table under construction. -/
abbrev Entries := List (Key × Item)

namespace Entries

/-- Changes the last table of an array. -/
def changeLast (change : Entries → Option Entries) : List Entries → Option (List Entries)
  | [] => none
  | [last] => (change last).map ([·])
  | first :: more => (changeLast change more).map (first :: ·)

/-- Sets a dotted key.  A key that is set stays as it is, and dotted keys do not add to a table that came to be in another
way, though they may lead through one that is implied. -/
def assign (v : Value) : List Key → Entries → Option Entries
  | [], _ => none
  | [key], entries =>
    match entries.lookup key with
    | none => some (setKey entries key (.value v))
    | some _ => none
  | key :: next :: path, entries =>
    match entries.lookup key with
    | none => (assign v (next :: path) []).map fun below => setKey entries key (.table .dotted below)
    | some (.table .dotted below) =>
      (assign v (next :: path) below).map fun below => setKey entries key (.table .dotted below)
    | some (.table .implied below) =>
      if path = [] then none
      else (assign v (next :: path) below).map fun below => setKey entries key (.table .implied below)
    | some (.tables below) =>
      if path = [] then none
      else (changeLast (assign v (next :: path)) below).map fun below => setKey entries key (.tables below)
    | some _ => none

/-- Changes the table that the keys of a header lead to.  Tables that are missing on the way are implied, and an array
stands for its last table. -/
def changeAt (change : Entries → Option Entries) : List Key → Entries → Option Entries
  | [], entries => change entries
  | key :: path, entries =>
    match entries.lookup key with
    | none => (changeAt change path []).map fun below => setKey entries key (.table .implied below)
    | some (.table origin below) => (changeAt change path below).map fun below => setKey entries key (.table origin below)
    | some (.tables below) =>
      (changeLast (changeAt change path) below).map fun below => setKey entries key (.tables below)
    | some (.value _) => none

/-- What the header of a table does in the table above it. -/
def openKey (key : Key) (entries : Entries) : Option Entries :=
  match entries.lookup key with
  | none => some (setKey entries key (.table .header []))
  | some (.table .implied below) => some (setKey entries key (.table .header below))
  | some _ => none

/-- What the header of an array of tables does in the table above it. -/
def openArrayKey (key : Key) (entries : Entries) : Option Entries :=
  match entries.lookup key with
  | none => some (setKey entries key (.tables [[]]))
  | some (.tables tables) => some (setKey entries key (.tables (tables ++ [[]])))
  | some _ => none

/-- What the header of a table does. -/
def openTable (path : List Key) (entries : Entries) : Option Entries :=
  match path.getLast? with
  | some key => changeAt (openKey key) path.dropLast entries
  | none => none

/-- What the header of an array of tables does. -/
def openArrayTable (path : List Key) (entries : Entries) : Option Entries :=
  match path.getLast? with
  | some key => changeAt (openArrayKey key) path.dropLast entries
  | none => none

end Entries

mutual

/-- The value of an item, however it came to be. -/
def Item.toValue : Item → Value
  | .value v => v
  | .table _ entries => .table (entryValues entries)
  | .tables tables => .array (tableValues tables)

/-- The entries of a table with their values. -/
def entryValues : List (Key × Item) → List (Key × Value)
  | [] => []
  | (key, item) :: entries => (key, item.toValue) :: entryValues entries

/-- The tables of an array as values. -/
def tableValues : List (List (Key × Item)) → List Value
  | [] => []
  | entries :: tables => .table (entryValues entries) :: tableValues tables

end

/-- The table that a list of assignments makes. -/
def tableOf? (assigned : List (List Key × Value)) : Option (List (Key × Value)) :=
  (assigned.foldlM (fun entries (path, v) => Entries.assign v path entries) []).map entryValues

end Likeness.Toml
