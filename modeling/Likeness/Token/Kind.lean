import Likeness.Text.Letters
import Likeness.Token.Vocabulary

/-!
# Kinds of tokens

Every token is of exactly one kind, decided by the vocabulary first and by its first character last.
-/

namespace Likeness

/-- What a token is. -/
inductive Kind where
  | keyword
  /-- An operator or a delimiter. -/
  | operator
  | identifier
  /-- One of the words for a truth value or for no object. -/
  | excludedLiteral
  /-- Anything else, such as the empty token or one that starts with a digit. -/
  | other
  deriving DecidableEq, Repr

/-- Whether a character can start a word. -/
def startsWord (c : Char) : Bool :=
  isLetter c || c == '_'

/-- The kind of a token. -/
def Token.kind (t : Token) : Kind :=
  if t ∈ keywords then .keyword
  else if t ∈ operators then .operator
  else if t ∈ excludedLiterals then .excludedLiteral
  else if t.head?.any startsWord then .identifier
  else .other

end Likeness
