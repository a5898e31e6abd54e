import Likeness.Failure
import Likeness.Vector.Cosine

/-!
# Weights

The weights of the aspects in the fused score.  They need not add up to 1.

* `Weights.check` accepts finite weights that are not negative;
* `Weights.normalized` divides weights by their sum;
* `Weights.fuse` is the weighted sum of the scores.
-/

namespace Likeness

/-- One weight for each aspect. -/
abbrev Weights := ByAspect Float

/-- One score for each aspect. -/
abbrev Scores := ByAspect Float

namespace Weights

/-- The weights that were fitted on a sample of sources. -/
def default : Weights where
  keyword := 0.368208
  identifier := 0.055308
  operator := 0.118788
  sequence := 0.148921
  length := 0.308775

/-- Whether a number can be a weight: it is finite and not below zero. -/
def isUsable (x : Float) : Bool :=
  x.isFinite && !(x < 0.0)

/-- The first aspect, in order, whose weight is unusable. -/
def fault? (w : Weights) : Option WeightFault :=
  (Aspect.all.find? fun a => !isUsable (w.get a)).map fun a => .unusable a (w.get a)

/-- Refuses weights that are unusable. -/
def check (w : Weights) : Except Failure Unit :=
  match w.fault? with
  | some fault => .error (.weights fault)
  | none => .ok ()

/-- The sum of the weights. -/
def total (w : Weights) : Float :=
  sum w.toList

/-- The weights divided by their sum. -/
def normalized (w : Weights) : Except Failure Weights :=
  match w.check with
  | .error failure => .error failure
  | .ok () =>
    if w.total <= 0.0 then .error (.weights .allZero) else .ok (.ofFn fun a => w.get a / w.total)

/-- The weighted sum of the scores, added up in the order of the aspects. -/
def fuse (w : Weights) (s : Scores) : Float :=
  w.keyword * s.keyword + w.identifier * s.identifier + w.operator * s.operator + w.sequence * s.sequence
    + w.length * s.length

end Weights

end Likeness
