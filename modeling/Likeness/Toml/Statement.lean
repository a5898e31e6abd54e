import Likeness.Toml.Scalar

/-!
# Statements of TOML documents

A document is a sequence of statements, one a line: headers of tables, headers of arrays of tables, and assignments of values
to keys.

* `path?` reads a dotted key, and `assignment?` a dotted key and its value;
* `arrayItems?` and `inlineAssignments?` read what stands between the brackets of an array and the braces of an inline table.

A dotted key is a list of keys.  How a value is read is given to the readers of what holds values.  Each loop goes on only with a shorter text, which is why it ends.
-/

namespace Likeness.Toml

/-- How deep values may be nested, and how many parts a dotted key may have. -/
def nestingLimit : Nat := 79

/-- A statement of a document. -/
inductive Statement where
  /-- What follows is in the table with this key. -/
  | header (path : List Key)
  /-- What follows is in a new table of the array with this key. -/
  | arrayHeader (path : List Key)
  | assign (path : List Key) (v : Value)

/-- Whether a character can stand in a key without quotes. -/
def isBare (c : Char) : Bool :=
  c.isAlphanum || c = '_' || c = '-'

/-- Reads a part of a dotted key. -/
def key? (text : List Char) : Option (Key × List Char) :=
  match quotedOnLine? text with
  | some found => some found
  | none =>
    match text.takeWhile isBare with
    | [] => none
    | key => some (key, text.dropWhile isBare)

/-- Reads a dotted key of at most the given number of parts, with blanks around the parts. -/
def keyPath? : Nat → List Char → Option (List Key × List Char)
  | 0, _ => none
  | parts + 1, text => do
    let (key, text) ← key? (skipSpace text)
    match skipSpace text with
    | '.' :: text => do
      let (keys, rest) ← keyPath? parts text
      return (key :: keys, rest)
    | rest => return ([key], rest)

/-- Reads a dotted key. -/
def path? (text : List Char) : Option (List Key × List Char) :=
  keyPath? nestingLimit text

/-- Reads the items of an array and its closing bracket.  A comma may follow the last item. -/
def arrayItems? (item? : List Char → Option (Value × List Char)) (text : List Char) : Option (List Value × List Char) :=
  match skipGaps text with
  | ']' :: rest => some ([], rest)
  | start =>
    match item? start with
    | none => none
    | some (v, text') =>
      match skipGaps text' with
      | ']' :: rest => some ([v], rest)
      | ',' :: more =>
        if more.length < text.length then
          match arrayItems? item? more with
          | some (vs, rest) => some (v :: vs, rest)
          | none => none
        else none
      | _ => none
termination_by text.length

/-- Reads a dotted key, an equals sign and a value. -/
def assignment? (item? : List Char → Option (Value × List Char)) (text : List Char) :
    Option ((List Key × Value) × List Char) := do
  let (path, text) ← path? text
  let (v, rest) ← item? (skipSpace (← after? '=' text))
  return ((path, v), rest)

/-- Reads the assignments of an inline table and its closing brace. -/
def inlineAssignments? (item? : List Char → Option (Value × List Char)) (text : List Char) :
    Option (List (List Key × Value) × List Char) :=
  match assignment? item? text with
  | none => none
  | some (assigned, text') =>
    match skipSpace text' with
    | '\x7d' :: rest => some ([assigned], rest)
    | ',' :: more =>
      if more.length < text.length then
        match inlineAssignments? item? more with
        | some (others, rest) => some (assigned :: others, rest)
        | none => none
      else none
    | _ => none
termination_by text.length

end Likeness.Toml
