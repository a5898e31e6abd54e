import Likeness.Decimal.Style

/-!
# Writing TOML

* `stringText` writes a string in the first of four forms that needs no escapes, or else as a basic string with escapes;
* `arrayText` writes an array of strings, one a line if there are several;
* `numberText` writes a double, never with an exponent.
-/

namespace Likeness.Toml

/-- How doubles are written. -/
def numberStyle : NumberStyle where
  tie := .up
  nan := "nan".toList
  infinite := "inf".toList
  signedInfinite := true
  keepsPoint := true
  plain := none

/-- A double as it is written. -/
def numberText (x : Float) : List Char :=
  numberStyle.write x

/-- The length of the longest run of a character, a run of the given length having come before. -/
def longestRun (c : Char) : Nat → List Char → Nat
  | run, [] => run
  | run, d :: text => if d = c then longestRun c (run + 1) text else max run (longestRun c 0 text)

/-- Whether a character can only be written by an escape in all forms: a control character but a tab or a line feed. -/
def needsEscape (c : Char) : Bool :=
  (c.toNat < 0x20 && c ≠ '\t' && c ≠ '\n') || c.toNat = 0x7F

/-- The forms of strings. -/
inductive StringForm where
  | basic
  | literal
  | basicLines
  | literalLines
  deriving DecidableEq, Repr

/-- The first form that needs no escapes, or else a basic form. -/
def formOf (string : List Char) : StringForm :=
  let escapes := string.any needsEscape
  let backslash := string.contains '\\'
  let lines := string.contains '\n'
  let doubles := longestRun '"' 0 string
  let singles := longestRun '\'' 0 string
  if !escapes ∧ !backslash ∧ doubles = 0 ∧ !lines then .basic
  else if !escapes ∧ singles = 0 ∧ !lines then .literal
  else if !escapes ∧ !backslash ∧ doubles ≤ 2 then .basicLines
  else if !escapes ∧ singles ≤ 2 then .literalLines
  else if lines then .basicLines
  else .basic

/-- A digit of base 16, in upper case. -/
def hexDigit (n : Nat) : Char :=
  if n < 10 then Char.ofNat ('0'.toNat + n) else Char.ofNat ('A'.toNat + n - 10)

/-- A character of a basic string, escaped if it has to be. -/
def charText (lines : Bool) (c : Char) : List Char :=
  if c = '\x08' then ['\\', 'b']
  else if c = '\t' then ['\\', 't']
  else if c = '\n' then (if lines then ['\n'] else ['\\', 'n'])
  else if c = '\x0c' then ['\\', 'f']
  else if c = '\r' then ['\\', 'r']
  else if c = '\\' then ['\\', '\\']
  else if needsEscape c then ['\\', 'u', '0', '0', hexDigit (c.toNat / 16), hexDigit (c.toNat % 16)]
  else [c]

/-- The body of a basic string.  Over several lines two quotes in a row may stand, and a third one is escaped. -/
def basicBody (lines : Bool) : Nat → List Char → List Char
  | _, [] => []
  | quotes, c :: text =>
    if c = '"' then
      if quotes < (if lines then 2 else 0) then '"' :: basicBody lines (quotes + 1) text
      else '\\' :: '"' :: basicBody lines 0 text
    else charText lines c ++ basicBody lines 0 text

/-- A string as it is written.  In a form of several lines, a string that has line ends starts on a line of its own. -/
def stringText (string : List Char) : List Char :=
  let opening := if string.contains '\n' then ['\n'] else []
  match formOf string with
  | .basic => '"' :: basicBody false 0 string ++ ['"']
  | .literal => '\'' :: string ++ ['\'']
  | .basicLines => ['"', '"', '"'] ++ opening ++ basicBody true 0 string ++ ['"', '"', '"']
  | .literalLines => ['\'', '\'', '\''] ++ opening ++ string ++ ['\'', '\'', '\'']

/-- An array of strings as it is written. -/
def arrayText : List (List Char) → List Char
  | [] => ['[', ']']
  | [string] => '[' :: stringText string ++ [']']
  | strings => '[' :: '\n' :: strings.flatMap (fun s => "    ".toList ++ stringText s ++ [',', '\n']) ++ [']']

/-- A key and its value on a line. -/
def entryText (key value : List Char) : List Char :=
  key ++ " = ".toList ++ value ++ ['\n']

/-- The header of a table on a line. -/
def headerText (key : List Char) : List Char :=
  '[' :: key ++ [']', '\n']

end Likeness.Toml
