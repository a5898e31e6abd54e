import Likeness.Aspect
import Likeness.Decimal.Style
import Likeness.Files.IoCause
import Likeness.Files.Path

/-!
# Failures

What can go wrong, by cause, and the texts that are shown.

* `Failure.message` is the text of a failure;
* `Failure.causes` are the texts of the causes below it, which a full account adds.
-/

namespace Likeness

/-- Why weights cannot be used. -/
inductive WeightFault where
  /-- The weight of an aspect is negative or no finite number. -/
  | unusable (aspect : Aspect) (value : Float)
  /-- No weight is positive. -/
  | allZero
  deriving DecidableEq

/-- What can go wrong. -/
inductive Failure where
  /-- Grams of no tokens were asked for. -/
  | gramWidth (width : Nat)
  /-- Two tallies do not count the same vocabulary. -/
  | dimensions (left right : Nat)
  | weights (fault : WeightFault)
  | io (cause : IoCause) (path : Path)
  /-- Settings name no extensions; the path is the file that is at fault. -/
  | noExtensions (path : Path)
  /-- Settings have a threshold that is not between 0 and 1. -/
  | thresholdRange (path : Path)
  /-- The settings in a file are at fault. -/
  | settings (path : Path) (cause : Failure)
  /-- The text of a settings file is not well formed, or a value in it has the wrong type.  What the reader says of the place
  and the kind of the mistake is left out: one text stands for all that it may say. -/
  | settingsText (path : Path)
  deriving DecidableEq

/-- How a value that cannot be a weight is shown: with the fewest digits, and never with an exponent. -/
def plainNumber : NumberStyle where
  tie := .up
  nan := "NaN".toList
  infinite := "inf".toList
  signedInfinite := true
  keepsPoint := false
  plain := none

/-- The text of what is wrong with weights. -/
def WeightFault.message : WeightFault → String
  | unusable aspect value =>
    aspect.name ++ " weight must be a finite non-negative number (got " ++ String.ofList (plainNumber.write value) ++ ")"
  | allZero => "weights sum to zero"

namespace Failure

/-- The text of a failure. -/
def message : Failure → String
  | gramWidth width => "n-gram width must be at least 1 (got " ++ toString width ++ ")"
  | dimensions left right => "vector dimensions differ: " ++ toString left ++ " vs " ++ toString right
  | weights fault => "invalid weights: " ++ fault.message
  | io cause path => "I/O error: " ++ cause.message ++ " (path: " ++ path.display ++ ")"
  | noExtensions path => "invalid config in " ++ path.display ++ ": scan.extensions must not be empty"
  | thresholdRange path => "invalid config in " ++ path.display ++ ": scan.report_threshold must be within 0.0..=1.0"
  | settings path cause => "invalid config in " ++ path.display ++ ": " ++ cause.message
  | settingsText path => "invalid config in " ++ path.display ++ ": the text cannot be read as settings"

/-- The texts of the causes below a failure. -/
def causes : Failure → List String
  | io cause _ => [cause.message]
  | _ => []

end Failure

/-- The failure to read a path. -/
def orIo (path : Path) : Except IoCause α → Except Failure α
  | .ok a => .ok a
  | .error cause => .error (.io cause path)

end Likeness
