/-!
# Space in TOML documents

Blanks stand within a line; comments and line ends stand between lines, and between the items of an array.
-/

namespace Likeness.Toml

/-- Whether a character is a blank: a space or a tab. -/
def isSpace (c : Char) : Bool :=
  c = ' ' || c = '\t'

/-- Whether a character can stand in a comment or unescaped in a string: it is a tab or no control character. -/
def isPlain (c : Char) : Bool :=
  c = '\t' || (0x20 ≤ c.toNat && c.toNat ≠ 0x7F)

/-- Drops blanks. -/
def skipSpace (text : List Char) : List Char :=
  text.dropWhile isSpace

/-- What follows a line end: a line feed, alone or after a carriage return, or the end of the document. -/
def lineEnd? : List Char → Option (List Char)
  | [] => some []
  | '\n' :: text => some text
  | '\r' :: '\n' :: text => some text
  | _ => none

/-- What follows the end of a line on which only blanks and a comment may be left. -/
def restOfLine? (text : List Char) : Option (List Char) :=
  match skipSpace text with
  | '#' :: comment => lineEnd? (comment.dropWhile isPlain)
  | text => lineEnd? text

/-- Drops blanks, line ends and comments, starting within a comment or not. -/
def skipGapsFrom : Bool → List Char → List Char
  | _, [] => []
  | _, '\n' :: text => skipGapsFrom false text
  | _, '\r' :: '\n' :: text => skipGapsFrom false text
  | true, c :: text => if isPlain c then skipGapsFrom true text else c :: text
  | false, c :: text =>
    if isSpace c then skipGapsFrom false text
    else if c = '#' then skipGapsFrom true text
    else c :: text

/-- Drops blanks, line ends and comments. -/
def skipGaps (text : List Char) : List Char :=
  skipGapsFrom false text

end Likeness.Toml
