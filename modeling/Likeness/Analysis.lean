import Likeness.Source.Cleaning
import Likeness.Token.Numbering
import Likeness.Token.Piece
import Likeness.Vector.Tally

/-!
# Analysis of a source text

All that is taken from a source text before it is compared.
-/

namespace Likeness

/-- What is taken from a source text. -/
structure Analysis where
  tokens : List Token
  keywords : Tally
  operators : Tally
  /-- The identifiers in order, numbered by first appearance. -/
  identifiers : List Token
  /-- The tokens with their identifiers numbered. -/
  normalized : List Token
  deriving DecidableEq, Repr

namespace Analysis

/-- What is taken from a stream of tokens. -/
def ofTokens (stream : List Token) : Analysis where
  tokens := stream
  keywords := keywordTally stream
  operators := operatorTally stream
  identifiers := identifierSequence stream
  normalized := normalForm stream

/-- What is taken from a source text: it is cleaned and cut into tokens first. -/
def ofSource (source : List Char) : Analysis :=
  ofTokens (Likeness.tokens (clean source))

/-- The number of tokens. -/
def tokenCount (a : Analysis) : Nat :=
  a.tokens.length

end Analysis

end Likeness
