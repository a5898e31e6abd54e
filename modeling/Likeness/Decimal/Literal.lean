import Likeness.Decimal.Shortest

/-!
# Reading a double from a text

* `doubleOf?` reads a number as it is given on a command line: digits with an optional sign, point and exponent, or a word
  for infinity or for what is no number.
-/

namespace Likeness

/-- The number that decimal digits write. -/
def decimalValue (digits : List Char) : Nat :=
  digits.foldl (fun n c => 10 * n + (c.toNat - '0'.toNat)) 0

/-- The whole number that a text writes, with an optional sign. -/
def wholeOf? (text : List Char) : Option Int :=
  let (negative, digits) : Bool × List Char := match text with
    | '-' :: digits => (true, digits)
    | '+' :: digits => (false, digits)
    | digits => (false, digits)
  if digits ≠ [] ∧ digits.all Char.isDigit then
    let n := decimalValue digits
    some (if negative then -(n : Int) else n)
  else none

/-- The decimal that a text without a sign writes.  There is a digit before or after the point. -/
def decimalOf? (text : List Char) : Option Decimal :=
  let whole := text.takeWhile Char.isDigit
  let rest := text.dropWhile Char.isDigit
  let (places, rest) : List Char × List Char := match rest with
    | '.' :: rest => (rest.takeWhile Char.isDigit, rest.dropWhile Char.isDigit)
    | rest => ([], rest)
  if whole = [] ∧ places = [] then none
  else
    let exponent? := match rest with
      | [] => some 0
      | c :: rest => if c = 'e' ∨ c = 'E' then wholeOf? rest else none
    exponent?.map fun exponent => ⟨decimalValue (whole ++ places), exponent - places.length⟩

/-- The double that a text writes. -/
def doubleOf? (text : List Char) : Option Float :=
  let (negative, text) : Bool × List Char := match text with
    | '-' :: text => (true, text)
    | '+' :: text => (false, text)
    | text => (false, text)
  let word := String.ofList (text.map Char.toLower)
  if word = "inf" ∨ word = "infinity" then some (Magnitude.infinity.toFloat negative)
  else if word = "nan" then some (0.0 / 0.0)
  else (decimalOf? text).map (Decimal.toFloat negative)

end Likeness
