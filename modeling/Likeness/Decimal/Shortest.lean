import Likeness.Decimal.Binary64

/-!
# Decimals for doubles

* `Decimal.nearestMagnitude` reads a decimal as the nearest double;
* `Decimal.shortest` chooses the decimal that stands for a double in text.

The decimals with a given exponent form a grid.  The chosen decimal lies on the coarsest grid that has a decimal which
reads back as the double; if both neighbours of the double on that grid do, the nearer one is taken.
-/

namespace Likeness

/-- The number `digits · 10 ^ exponent`. -/
structure Decimal where
  digits : Nat
  exponent : Int
  deriving DecidableEq, Repr

namespace Decimal

/-- A power of ten as a quotient of two whole numbers. -/
def tenPow (e : Int) : Nat × Nat :=
  (Nat.pow 10 e.toNat, Nat.pow 10 (-e).toNat)

/-- The magnitude of the double that a decimal is nearest to, ties to even.  Exponents so large or so small that the
digits cannot make up for them are decided without writing the number out. -/
def nearestMagnitude (d : Decimal) : Magnitude :=
  if d.digits = 0 then 0
  else if 400 < d.exponent then Magnitude.infinity
  else if d.exponent + (d.digits.log2 : Int) < -400 then 0
  else Magnitude.nearest (d.digits * (tenPow d.exponent).1) (tenPow d.exponent).2

/-- The double that a signed decimal is nearest to. -/
def toFloat (negative : Bool) (d : Decimal) : Float :=
  d.nearestMagnitude.toFloat negative

/-- The value of a finite magnitude in units of a power of ten, as a quotient. -/
def inUnits (m : Magnitude) (exponent : Int) : Nat × Nat :=
  let two := m.exponent
  (m.mantissa * Nat.pow 2 two.toNat * (tenPow exponent).2, Nat.pow 2 (-two).toNat * (tenPow exponent).1)

/-- The decimal with the given exponent that reads back as a magnitude, the nearer one if there are two. -/
def onGrid? (tie : Tie) (m : Magnitude) (exponent : Int) : Option Decimal :=
  let (num, den) := inUnits m exponent
  let low : Decimal := ⟨num / den, exponent⟩
  let high : Decimal := ⟨num / den + 1, exponent⟩
  match decide (low.nearestMagnitude = m), decide (high.nearestMagnitude = m) with
  | true, true => some ⟨roundDiv tie num den, exponent⟩
  | true, false => some low
  | false, true => some high
  | false, false => none

/-- An exponent whose power of ten is above a magnitude, and not by much. -/
def coarse (m : Magnitude) : Int :=
  (m.mantissa.log2 + 1 + m.exponent) * 30103 / 100000 + 1

/-- The decimal that is a magnitude exactly. -/
def exact (m : Magnitude) : Decimal :=
  if 0 ≤ m.exponent then ⟨m.mantissa * Nat.pow 2 m.exponent.toNat, 0⟩
  else ⟨m.mantissa * Nat.pow 5 (-m.exponent).toNat, m.exponent⟩

/-- The decimal on the coarsest grid that reads back as a finite magnitude. -/
def shortest (tie : Tie) (m : Magnitude) : Decimal :=
  if m = 0 then ⟨0, 0⟩
  else ((List.range 20).findSome? fun finer : Nat => onGrid? tie m (coarse m - finer)).getD (exact m)

end Decimal

end Likeness
