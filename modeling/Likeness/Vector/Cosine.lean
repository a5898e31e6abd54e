import Likeness.Vector.Grams
import Likeness.Vector.Tally

/-!
# Measures of likeness between counts

* `CosineSums` is what a cosine is made of, and `cosineOfSums` makes it;
* `Tally.cosine?` and `Tally.distance?` compare two tallies slot by slot, if they have the same dimension;
* `GramCounts.cosine` compares two lists of grams by key, in the order in which they are listed;
* `lengthRatio` compares two lengths.

Two empty sides count as alike (1) and one empty side as unlike (0); only otherwise is a quotient taken.  All arithmetic
is on doubles in the order in which the sums are written here.
-/

namespace Likeness

/-- A number brought into the interval from 0 to 1.  A number that is not below 0 and not above 1 is kept as it is. -/
def clampUnit (x : Float) : Float :=
  let x := if x < 0.0 then 0.0 else x
  if x > 1.0 then 1.0 else x

/-- A sum from left to right, starting at negative zero, the neutral element of addition. -/
def sum (xs : List Float) : Float :=
  xs.foldl (· + ·) (-0.0)

/-- The cosine from its three sums.  The root of the product of the squared norms, not the product of their roots, makes
the cosine of equal sides exactly 1. -/
def cosineOfSums (isZeroA isZeroB : Bool) (dot normA normB : Float) : Float :=
  match isZeroA, isZeroB with
  | true, true => 1.0
  | true, false => 0.0
  | false, true => 0.0
  | false, false => clampUnit (dot / (normA * normB).sqrt)

/-- What a cosine is made of. -/
structure CosineSums where
  isZeroA : Bool
  isZeroB : Bool
  dot : Float
  normA : Float
  normB : Float

def CosineSums.cosine (s : CosineSums) : Float :=
  cosineOfSums s.isZeroA s.isZeroB s.dot s.normA s.normB

namespace Tally

/-- The pairs of counts in equal slots, as doubles. -/
def slots (u v : Tally) : List (Float × Float) :=
  (u.counts.zip v.counts).map fun (a, b) => (a.toFloat, b.toFloat)

/-- What the cosine of two tallies is made of. -/
def sums (u v : Tally) : CosineSums where
  isZeroA := u.isZero
  isZeroB := v.isZero
  dot := (u.slots v).foldl (fun s pair => s + pair.1 * pair.2) 0.0
  normA := (u.slots v).foldl (fun s pair => s + pair.1 * pair.1) 0.0
  normB := (u.slots v).foldl (fun s pair => s + pair.2 * pair.2) 0.0

/-- The cosine of two tallies of the same dimension. -/
def cosine? (u v : Tally) : Option Float :=
  if u.dimension = v.dimension then some (u.sums v).cosine else none

theorem cosine?_eq_sums {u v : Tally} (h : u.dimension = v.dimension) : u.cosine? v = some (u.sums v).cosine :=
  if_pos h

/-- The straight-line distance of two tallies of the same dimension. -/
def distance? (u v : Tally) : Option Float :=
  if u.dimension = v.dimension then
    some (sum ((u.slots v).map fun (a, b) => (a - b) * (a - b))).sqrt
  else none

end Tally

namespace GramCounts

/-- The products of the counts of the grams that occur on both sides, summed in the order of the first side, one side
being looked up by `find`. -/
def dotBy (find : List Char → Option UInt32) (a : GramCounts) : Float :=
  a.foldl (fun s (key, n) => match find key with
    | some m => s + n.toFloat * m.toFloat
    | none => s) 0.0

/-- The products of the counts of the grams that occur on both sides, summed in the order of the first side. -/
def dot (a b : GramCounts) : Float :=
  let tree := b.index
  dotBy (tree[·]?) a

theorem dot_eq (a b : GramCounts) : a.dot b = dotBy b.count? a := by
  simp [dot]

/-- The sum of the squares of the counts, in the order of the entries. -/
def squaredNorm (start : Float) (a : GramCounts) : Float :=
  a.foldl (fun s (_, n) => s + n.toFloat * n.toFloat) start

/-- What the cosine of two lists of grams is made of if the first is looked up in the second. -/
def sumsInto (small large : GramCounts) : CosineSums where
  isZeroA := small.isEmpty
  isZeroB := large.isEmpty
  dot := small.dot large
  normA := small.squaredNorm 0.0
  normB := large.squaredNorm (-0.0)

/-- What the cosine of two lists of grams is made of, the one with fewer entries being looked up in the other. -/
def sums (a b : GramCounts) : CosineSums :=
  if a.length ≤ b.length then sumsInto a b else sumsInto b a

/-- The cosine of two lists of grams. -/
def cosine (a b : GramCounts) : Float :=
  (a.sums b).cosine

theorem cosine_eq_sums (a b : GramCounts) : a.cosine b = (a.sums b).cosine := rfl

end GramCounts

/-- A length as a double, rounded to the nearest. -/
def lengthToFloat (n : Nat) : Float :=
  n.toUInt64.toFloat

/-- The smaller of two lengths by the larger. -/
def lengthRatio (a b : Nat) : Float :=
  if a = 0 ∧ b = 0 then 1.0
  else if a = 0 ∨ b = 0 then 0.0
  else lengthToFloat (min a b) / lengthToFloat (max a b)

end Likeness
