import Likeness.Token.Kind

/-!
# Numbering identifiers

To compare sources whatever their names are, identifiers are numbered in the order of their first appearance and written
`ID0`, `ID1` and so on.

* `identifierSequence` holds the identifiers of a stream of tokens, numbered;
* `normalForm` holds the whole stream with its identifiers numbered, less the words that stand for values.

The two views number on their own, each with the list of the names it has seen.
-/

namespace Likeness

/-- The names seen so far, in order of first appearance, after one more name. -/
def seeName (seen : List Token) (name : Token) : List Token :=
  if name ∈ seen then seen else seen ++ [name]

/-- The numbered name `ID<k>`. -/
def numberedName (k : Nat) : Token :=
  "ID".toList ++ Nat.toDigits 10 k

/-- Replaces each name by its numbered name, some names having been seen before. -/
def numberNames (seen : List Token) : List Token → List Token
  | [] => []
  | name :: names =>
    let seen := seeName seen name
    numberedName (seen.idxOf name) :: numberNames seen names

/-- The identifiers of a stream, each replaced by its numbered name. -/
def identifierSequence (stream : List Token) : List Token :=
  numberNames [] (stream.filter (·.kind = .identifier))

/-- Keeps keywords and operators, numbers identifiers, and drops the rest, some names having been seen before. -/
def normalFormFrom (seen : List Token) : List Token → List Token
  | [] => []
  | t :: stream =>
    match t.kind with
    | .keyword | .operator => t :: normalFormFrom seen stream
    | .identifier =>
      let seen := seeName seen t
      numberedName (seen.idxOf t) :: normalFormFrom seen stream
    | .excludedLiteral | .other => normalFormFrom seen stream

/-- A stream with its identifiers numbered and the words that stand for values dropped. -/
def normalForm (stream : List Token) : List Token :=
  normalFormFrom [] stream

end Likeness
