import Likeness.Source.Role

/-!
# Cleaning a source text

Comments and the bodies of literals carry no structure and are taken out before a text is cut into tokens.

* `stripComments` puts one space in the place of a comment and keeps the line ends within it;
* `emptyLiterals` keeps only the quotes of a literal;
* `clean` does the one and then the other.
-/

namespace Likeness

/-- What is kept of a character when comments are taken out: one space for the whole of a comment, and its line ends. -/
def Role.outsideComments : Char × Role → List Char
  | (_, .opener) => [' ']
  | (_, .remark) => []
  | (c, _) => [c]

/-- Puts a space in the place of each comment, keeping the line ends within it. -/
def stripComments (text : List Char) : List Char :=
  (annotate .code text).flatMap Role.outsideComments

/-- Drops what stands between quotes, the text being read outside literals (`none`) or inside one (`some`). -/
def dropBodies : Option Quote → List Char → List Char
  | _, [] => []
  | none, c :: text => c :: dropBodies (Quote.ofChar? c) text
  | some _, ['\\'] => []
  | some q, '\\' :: _ :: text => dropBodies (some q) text
  | some q, c :: text => if c = q.char then c :: dropBodies none text else dropBodies (some q) text

/-- Keeps of each literal only its quotes.  A literal that is never closed keeps the opening one. -/
def emptyLiterals (text : List Char) : List Char :=
  dropBodies none text

/-- Takes out the comments and then the bodies of the literals. -/
def clean (text : List Char) : List Char :=
  emptyLiterals (stripComments text)

end Likeness
