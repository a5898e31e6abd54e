import Likeness.Decimal.Shortest

/-!
# Writing doubles

* `NumberStyle` holds what differs between the places where shortest decimals are written: the words for what is no number,
  the rule for ties, whether a whole number keeps a zero after the point, and from where on an exponent is written;
* `NumberStyle.write` writes a double in a style;
* `fixedText` writes a double with a fixed number of places.
-/

namespace Likeness

/-- The digits of a number in base ten. -/
def digitsOf (n : Nat) : List Char :=
  Nat.toDigits 10 n

/-- The digits of a number, cut before the last `places` ones.  At least one digit stands before the cut. -/
def splitDigits (n places : Nat) : List Char × List Char :=
  let digits := (digitsOf n).leftpad (places + 1) '0'
  digits.splitAt (digits.length - places)

/-- The exponents of ten for which a decimal is written out in full, the first included and the last excluded. -/
structure PlainRange where
  first : Int
  last : Int
  deriving DecidableEq, Repr

/-- How doubles are written with the fewest digits. -/
structure NumberStyle where
  /-- Which of two equally near shortest decimals is taken. -/
  tie : Tie
  /-- What is written for a double that is no number. -/
  nan : List Char
  /-- What is written for infinity, after its sign. -/
  infinite : List Char
  /-- Whether the infinities have a sign. -/
  signedInfinite : Bool
  /-- Whether a whole number is written with a zero after the point. -/
  keepsPoint : Bool
  /-- The exponents of the first digit for which no exponent is written; without a range none is ever written. -/
  plain : Option PlainRange

namespace NumberStyle

/-- A decimal written out in full. -/
def writePlain (style : NumberStyle) (d : Decimal) : List Char :=
  let (whole, fraction) := splitDigits (d.digits * Nat.pow 10 d.exponent.toNat) (-d.exponent).toNat
  if fraction.isEmpty then (if style.keepsPoint then whole ++ ['.', '0'] else whole) else whole ++ '.' :: fraction

/-- A decimal written with one digit before the point and an exponent. -/
def writeScientific (d : Decimal) (exponent : Int) : List Char :=
  let mantissa := match digitsOf d.digits with
    | [] => []
    | [digit] => [digit]
    | digit :: more => digit :: '.' :: more
  mantissa ++ 'e' :: (if exponent < 0 then '-' else '+') :: digitsOf exponent.natAbs

/-- A decimal in a style, without a sign. -/
def writeDecimal (style : NumberStyle) (d : Decimal) : List Char :=
  let exponent := d.exponent + (digitsOf d.digits).length - 1
  match style.plain with
  | none => style.writePlain d
  | some range =>
    if d.digits = 0 ∨ (range.first ≤ exponent ∧ exponent < range.last) then style.writePlain d
    else writeScientific d exponent

/-- A double in a style. -/
def write (style : NumberStyle) (x : Float) : List Char :=
  let m := Magnitude.ofFloat x
  let sign := if isNegative x then ['-'] else []
  if Magnitude.infinity < m then style.nan
  else if m = Magnitude.infinity then (if style.signedInfinite then sign else []) ++ style.infinite
  else sign ++ style.writeDecimal (Decimal.shortest style.tie m)

end NumberStyle

/-- A double with a fixed number of places, rounded from its exact value, ties to even.  Negative zero keeps its sign. -/
def fixedText (places : Nat) (x : Float) : List Char :=
  let m := Magnitude.ofFloat x
  let sign := if isNegative x then ['-'] else []
  if Magnitude.infinity < m then "NaN".toList
  else if m = Magnitude.infinity then sign ++ "inf".toList
  else
    let (num, den) := Decimal.inUnits m (-places)
    let (whole, fraction) := splitDigits (roundDiv .toEven num den) places
    sign ++ whole ++ (if fraction.isEmpty then [] else '.' :: fraction)

end Likeness
