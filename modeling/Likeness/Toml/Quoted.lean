import Likeness.Toml.Space

/-!
# Strings in TOML documents

A string is basic, between double quotes and with escapes, or literal, between single quotes and without.  Both have a form
with three quotes, which may go over several lines.

* `basicRest`, `literalRest`, `basicLinesRest` and `literalLinesRest` read a string after its opening quotes;
* `quoted?` reads any string, and `quotedOnLine?` only those of one line, which can be keys.

Each reader gives the string and the text after it.
-/

namespace Likeness.Toml

/-- The value of a hexadecimal digit. -/
def hexDigit? (c : Char) : Option Nat :=
  if '0' ≤ c ∧ c ≤ '9' then some (c.toNat - '0'.toNat)
  else if 'a' ≤ c ∧ c ≤ 'f' then some (c.toNat - 'a'.toNat + 10)
  else if 'A' ≤ c ∧ c ≤ 'F' then some (c.toNat - 'A'.toNat + 10)
  else none

/-- The character with a hexadecimal code point, if it is one. -/
def scalar? (digits : List Char) : Option Char :=
  match digits.mapM hexDigit? with
  | none => none
  | some values =>
    let n := values.foldl (fun n d => 16 * n + d) 0
    if n < 0xD800 ∨ (0xDFFF < n ∧ n < 0x110000) then some (Char.ofNat n) else none

/-- The character that a backslash and a letter stand for. -/
def simpleEscape? : Char → Option Char
  | 'b' => some '\x08'
  | 't' => some '\t'
  | 'n' => some '\n'
  | 'f' => some '\x0c'
  | 'r' => some '\r'
  | '"' => some '"'
  | '\\' => some '\\'
  | _ => none

/-- A string that is continued by a character. -/
def push (c : Option Char) (more : Option (List Char × List Char)) : Option (List Char × List Char) :=
  match c, more with
  | some c, some (string, rest) => some (c :: string, rest)
  | _, _ => none

/-- Reads a basic string after its opening quote. -/
def basicRest : List Char → Option (List Char × List Char)
  | [] => none
  | '"' :: text => some ([], text)
  | '\\' :: 'u' :: a :: b :: c :: d :: text => push (scalar? [a, b, c, d]) (basicRest text)
  | '\\' :: 'U' :: a :: b :: c :: d :: e :: f :: g :: h :: text =>
    push (scalar? [a, b, c, d, e, f, g, h]) (basicRest text)
  | '\\' :: c :: text => push (simpleEscape? c) (basicRest text)
  | c :: text => if isPlain c then push (some c) (basicRest text) else none

/-- Reads a literal string after its opening quote. -/
def literalRest : List Char → Option (List Char × List Char)
  | [] => none
  | '\'' :: text => some ([], text)
  | c :: text => if isPlain c then push (some c) (literalRest text) else none

/-- Where a reader of basic strings over several lines stands. -/
inductive LinesMode where
  /-- Among the characters of the string. -/
  | text
  /-- After a backslash and blanks: a line end has to follow. -/
  | lineEndDue
  /-- After a backslash and a line end: blanks and line ends are dropped. -/
  | dropping
  deriving DecidableEq, Repr

/-- Reads a basic string after its three opening quotes.  Up to two quotes before the closing ones belong to the string. -/
def basicLinesRest : LinesMode → List Char → Option (List Char × List Char)
  | _, [] => none
  | .lineEndDue, '\n' :: text => basicLinesRest .dropping text
  | .lineEndDue, '\r' :: '\n' :: text => basicLinesRest .dropping text
  | .lineEndDue, c :: text => if isSpace c then basicLinesRest .lineEndDue text else none
  | .dropping, '\n' :: text => basicLinesRest .dropping text
  | .dropping, '\r' :: '\n' :: text => basicLinesRest .dropping text
  | .dropping, ' ' :: text => basicLinesRest .dropping text
  | .dropping, '\t' :: text => basicLinesRest .dropping text
  | _, '"' :: '"' :: '"' :: '"' :: '"' :: text => some (['"', '"'], text)
  | _, '"' :: '"' :: '"' :: '"' :: text => some (['"'], text)
  | _, '"' :: '"' :: '"' :: text => some ([], text)
  | _, '\\' :: '\n' :: text => basicLinesRest .dropping text
  | _, '\\' :: '\r' :: '\n' :: text => basicLinesRest .dropping text
  | _, '\\' :: ' ' :: text => basicLinesRest .lineEndDue text
  | _, '\\' :: '\t' :: text => basicLinesRest .lineEndDue text
  | _, '\\' :: 'u' :: a :: b :: c :: d :: text => push (scalar? [a, b, c, d]) (basicLinesRest .text text)
  | _, '\\' :: 'U' :: a :: b :: c :: d :: e :: f :: g :: h :: text =>
    push (scalar? [a, b, c, d, e, f, g, h]) (basicLinesRest .text text)
  | _, '\\' :: c :: text => push (simpleEscape? c) (basicLinesRest .text text)
  | _, '\n' :: text => push (some '\n') (basicLinesRest .text text)
  | _, '\r' :: '\n' :: text => push (some '\n') (basicLinesRest .text text)
  | _, c :: text => if isPlain c then push (some c) (basicLinesRest .text text) else none

/-- Reads a literal string after its three opening quotes.  Up to two quotes before the closing ones belong to the string. -/
def literalLinesRest : List Char → Option (List Char × List Char)
  | [] => none
  | '\'' :: '\'' :: '\'' :: '\'' :: '\'' :: text => some (['\'', '\''], text)
  | '\'' :: '\'' :: '\'' :: '\'' :: text => some (['\''], text)
  | '\'' :: '\'' :: '\'' :: text => some ([], text)
  | '\n' :: text => push (some '\n') (literalLinesRest text)
  | '\r' :: '\n' :: text => push (some '\n') (literalLinesRest text)
  | c :: text => if isPlain c then push (some c) (literalLinesRest text) else none

/-- Drops one line end; the one right after three opening quotes is not part of the string. -/
def dropLineEnd : List Char → List Char
  | '\n' :: text => text
  | '\r' :: '\n' :: text => text
  | text => text

/-- Reads a string of one line. -/
def quotedOnLine? : List Char → Option (List Char × List Char)
  | '"' :: text => basicRest text
  | '\'' :: text => literalRest text
  | _ => none

/-- Reads a string of any form. -/
def quoted? : List Char → Option (List Char × List Char)
  | '"' :: '"' :: '"' :: text => basicLinesRest .text (dropLineEnd text)
  | '\'' :: '\'' :: '\'' :: text => literalLinesRest (dropLineEnd text)
  | text => quotedOnLine? text

end Likeness.Toml
