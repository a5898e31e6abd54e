import Likeness.Toml.Statement
import Likeness.Toml.Table

/-!
# TOML documents

* `value?` reads a value; arrays and inline tables may be nested up to `nestingLimit`;
* `statements?` reads the statements of a document, one a line;
* `document?` puts them together to one table.
-/

namespace Likeness.Toml

/-- Reads a value in which arrays and inline tables are nested at most the given number of times. -/
def value? : Nat → List Char → Option (Value × List Char)
  | 0, text => plainValue? text
  | depth + 1, text =>
    match text with
    | '[' :: text => (arrayItems? (value? depth) text).map fun (items, rest) => (.array items, rest)
    | '\x7b' :: text =>
      match skipSpace text with
      | '\x7d' :: rest => some (.table [], rest)
      | text => do
        let (assigned, rest) ← inlineAssignments? (value? depth) text
        return (.table (← tableOf? assigned), rest)
    | text => plainValue? text

/-- Reads a line: a statement or nothing. -/
def line? (text : List Char) : Option (Option Statement × List Char) :=
  match skipSpace text with
  | [] => some (none, [])
  | '[' :: '[' :: text => do
    let (path, text) ← path? text
    let rest ← restOfLine? (← after? ']' (← after? ']' text))
    return (some (.arrayHeader path), rest)
  | '[' :: text => do
    let (path, text) ← path? text
    let rest ← restOfLine? (← after? ']' text)
    return (some (.header path), rest)
  | c :: text => do
    if c = '#' ∨ c = '\n' ∨ c = '\r' then
      let rest ← restOfLine? (c :: text)
      return (none, rest)
    else
      let ((path, v), text) ← assignment? (value? nestingLimit) (c :: text)
      let rest ← restOfLine? text
      return (some (.assign path v), rest)

/-- Reads the statements of a document. -/
def statements? (text : List Char) : Option (List Statement) :=
  if text = [] then some []
  else
    match line? text with
    | none => none
    | some (statement, rest) =>
      if rest.length < text.length then
        match statements? rest with
        | some more => some (statement.toList ++ more)
        | none => none
      else none
termination_by text.length

/-- A document under construction: its entries, and the header that is in force. -/
structure Draft where
  entries : Entries
  path : List Key

/-- What a statement does to a document. -/
def Draft.add (draft : Draft) : Statement → Option Draft
  | .header path => (draft.entries.openTable path).map (⟨·, path⟩)
  | .arrayHeader path => (draft.entries.openArrayTable path).map (⟨·, path⟩)
  | .assign path v =>
    (draft.entries.changeAt (Entries.assign v path) draft.path).map (⟨·, draft.path⟩)

/-- The mark that may stand before a document. -/
def byteOrderMark : Char := '\uFEFF'

/-- Reads a document. -/
def document? (text : List Char) : Option (List (Key × Value)) := do
  let text := if text.head? = some byteOrderMark then text.tail else text
  let draft ← (← statements? text).foldlM Draft.add ⟨[], []⟩
  return entryValues draft.entries

end Likeness.Toml
