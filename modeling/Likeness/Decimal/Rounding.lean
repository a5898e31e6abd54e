/-!
# Rounding a quotient

* `roundDiv` rounds a quotient to the nearest natural number and leaves exact ties to a rule;
* `roundDiv_mul` says that a whole quotient is kept.
-/

namespace Likeness

/-- Where an exact tie between two neighbours goes. -/
inductive Tie where
  /-- To the even neighbour. -/
  | toEven
  /-- To the larger neighbour. -/
  | up
  deriving DecidableEq, Repr

/-- The quotient of two natural numbers rounded to the nearest. -/
def roundDiv (tie : Tie) (num den : Nat) : Nat :=
  let low := num / den
  let twice := 2 * (num % den)
  if twice < den then low
  else if den < twice then low + 1
  else match tie with
    | .toEven => low + low % 2
    | .up => low + 1

/-- A whole quotient is kept. -/
theorem roundDiv_mul (tie : Tie) (n : Nat) {den : Nat} (h : 0 < den) : roundDiv tie (n * den) den = n := by
  simp [roundDiv, Nat.mul_div_cancel _ h, h]

end Likeness
