import Likeness.Decimal.Rounding

/-!
# The magnitude of a double

The magnitude of a double is the double without its sign.  It is handled as the natural number that its lower 63 bits
write: these numbers are ordered as the magnitudes are, and each finite one stands for `mantissa · 2 ^ exponent`.

* `Magnitude.ofFloat` takes the magnitude of a double and `Magnitude.toFloat` gives it a sign;
* `Magnitude.mantissa` and `Magnitude.exponent` are the exact value;
* `Magnitude.nearest` rounds a quotient to the nearest magnitude, ties to even.
-/

namespace Likeness

/-- The lower 63 bits of a double, as a number. -/
abbrev Magnitude := Nat

namespace Magnitude

/-- The magnitude of infinity.  Larger numbers are no numbers in the sense of doubles. -/
def infinity : Magnitude := 0x7FF * Nat.pow 2 52

/-- The magnitude of a double. -/
def ofFloat (x : Float) : Magnitude :=
  x.toBits.toNat % Nat.pow 2 63

/-- The double with a sign and a magnitude. -/
def toFloat (negative : Bool) (m : Magnitude) : Float :=
  Float.ofBits (UInt64.ofNat (if negative then Nat.pow 2 63 + m else m))

/-- The whole factor of the value of a finite magnitude. -/
def mantissa (m : Magnitude) : Nat :=
  if m < Nat.pow 2 52 then m else Nat.pow 2 52 + m % Nat.pow 2 52

/-- The exponent of two of the value of a finite magnitude. -/
def exponent (m : Magnitude) : Int :=
  if m < Nat.pow 2 52 then -1074 else (m / Nat.pow 2 52 : Nat) - 1075

/-- The largest exponent for which the quotient of two positive numbers has a mantissa of 53 bits, or the least exponent of
a double if that is larger. -/
def exponentOf (num den : Nat) : Int :=
  let size : Int := num.log2 - den.log2
  let reaches : Bool :=
    if 0 ≤ size then den * Nat.pow 2 size.toNat ≤ num else den ≤ num * Nat.pow 2 (-size).toNat
  max (-1074) (if reaches then size - 52 else size - 53)

/-- The magnitude nearest to the quotient of two positive numbers, ties to even.  A mantissa that is rounded up to 54 bits
carries into the exponent, and what is too large is infinity. -/
def nearest (num den : Nat) : Magnitude :=
  let e := exponentOf num den
  let m := roundDiv .toEven (num * Nat.pow 2 (-e).toNat) (den * Nat.pow 2 e.toNat)
  min infinity ((e + 1074).toNat * Nat.pow 2 52 + m)

end Magnitude

/-- Whether a double has a sign. -/
def isNegative (x : Float) : Bool :=
  decide (Nat.pow 2 63 ≤ x.toBits.toNat)

end Likeness
