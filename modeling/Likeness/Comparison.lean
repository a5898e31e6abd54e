import Likeness.Analysis
import Likeness.Weights

/-!
# Comparing two sources

* `multiScaleBy` compares two sequences by their grams of several widths;
* `compareAnalysesBy` compares two analyses under all aspects and fuses the scores;
* `compareSourcesBy` starts from source texts.

The orders in which grams are visited are a parameter.  `multiScale`, `compareAnalyses`, `compareSources` and `similarity` visit
them as they are listed.
-/

namespace Likeness

/-- A width of grams and its share in a score over several widths. -/
structure Scale where
  width : Nat
  weight : Float
  deriving DecidableEq

/-- The cosine at one width of grams. -/
structure ScaleScore where
  width : Nat
  score : Float
  deriving DecidableEq

/-- A score over several widths and the cosines that it is made of. -/
structure MultiScale where
  combined : Float
  scales : List ScaleScore
  deriving DecidableEq

/-- The widths for tokens of all kinds.  Wide grams weigh more, as narrow ones recur in sources that have nothing to do with
each other. -/
def sequenceScales : List Scale :=
  [⟨2, 0.05⟩, ⟨3, 0.08⟩, ⟨4, 0.10⟩, ⟨5, 0.12⟩, ⟨6, 0.15⟩, ⟨7, 0.20⟩, ⟨8, 0.30⟩]

/-- The widths for names. -/
def identifierScales : List Scale :=
  [⟨2, 0.10⟩, ⟨3, 0.15⟩, ⟨4, 0.20⟩, ⟨5, 0.25⟩, ⟨6, 0.30⟩]

/-- The orders in which the grams of two sequences are visited, for each width and side. -/
structure ScaleOrders where
  left : Nat → GramCounts.Order
  right : Nat → GramCounts.Order

/-- The orders in which the grams of two analyses are visited. -/
structure GramOrders where
  identifiers : ScaleOrders
  normalized : ScaleOrders

def ScaleOrders.asListed : ScaleOrders :=
  ⟨fun _ => .asListed, fun _ => .asListed⟩

def GramOrders.asListed : GramOrders :=
  ⟨.asListed, .asListed⟩

/-- The grams of a width, which must not be zero. -/
def gramsOf (sequence : List Token) (width : Nat) : Except Failure GramCounts :=
  if width = 0 then .error (.gramWidth width) else .ok (gramCounts width sequence)

/-- The cosine of two sequences at one width. -/
def scaleScoreBy (orders : ScaleOrders) (a b : List Token) (scale : Scale) : Except Failure ScaleScore := do
  let gramsA ← gramsOf a scale.width
  let gramsB ← gramsOf b scale.width
  let visitedA := (orders.left scale.width).visit gramsA
  let visitedB := (orders.right scale.width).visit gramsB
  return ⟨scale.width, visitedA.cosine visitedB⟩

/-- The weighted sum of the cosines at several widths. -/
def multiScaleBy (orders : ScaleOrders) (a b : List Token) (scales : List Scale) : Except Failure MultiScale := do
  let scores ← scales.mapM (scaleScoreBy orders a b)
  let combined := (scales.zip scores).foldl (fun s (scale, score) => s + scale.weight * score.score) 0.0
  return ⟨clampUnit combined, scores⟩

/-- The weighted sum of the cosines at several widths, the grams being visited as they are listed. -/
def multiScale (a b : List Token) (scales : List Scale) : Except Failure MultiScale :=
  multiScaleBy .asListed a b scales

/-- The cosine of two tallies, which must have the same dimension. -/
def tallyCosine (u v : Tally) : Except Failure Float :=
  match u.cosine? v with
  | some x => .ok x
  | none => .error (.dimensions u.dimension v.dimension)

/-- The distance of two tallies, which must have the same dimension. -/
def tallyDistance (u v : Tally) : Except Failure Float :=
  match u.distance? v with
  | some x => .ok x
  | none => .error (.dimensions u.dimension v.dimension)

/-- All that a comparison finds. -/
structure Comparison where
  scores : Scores
  sequenceScales : List ScaleScore
  identifierScales : List ScaleScore
  tokensA : Nat
  tokensB : Nat
  /-- The distance of the keyword tallies. -/
  keywordDistance : Float
  /-- The distance of the operator tallies. -/
  operatorDistance : Float
  /-- The fused score, between 0 and 1. -/
  total : Float
  deriving DecidableEq

/-- The score of token sequences at a width, if that width was measured. -/
def Comparison.sequenceAt? (c : Comparison) (width : Nat) : Option Float :=
  (c.sequenceScales.find? (·.width = width)).map ScaleScore.score

/-- Compares two analyses under weights, which must be usable. -/
def compareAnalysesBy (orders : GramOrders) (weights : Weights) (a b : Analysis) : Except Failure Comparison := do
  weights.check
  let keyword ← tallyCosine a.keywords b.keywords
  let operator ← tallyCosine a.operators b.operators
  let identifier ← multiScaleBy orders.identifiers a.identifiers b.identifiers identifierScales
  let sequence ← multiScaleBy orders.normalized a.normalized b.normalized sequenceScales
  let length := lengthRatio a.tokenCount b.tokenCount
  let scores : Scores := ⟨keyword, identifier.combined, operator, sequence.combined, length⟩
  let keywordDistance ← tallyDistance a.keywords b.keywords
  let operatorDistance ← tallyDistance a.operators b.operators
  return {
    scores
    sequenceScales := sequence.scales
    identifierScales := identifier.scales
    tokensA := a.tokenCount
    tokensB := b.tokenCount
    keywordDistance
    operatorDistance
    total := clampUnit (weights.fuse scores) }

/-- Compares two analyses, their grams being visited as they are listed. -/
def compareAnalyses (weights : Weights) (a b : Analysis) : Except Failure Comparison :=
  compareAnalysesBy .asListed weights a b

/-- Compares two source texts. -/
def compareSourcesBy (orders : GramOrders) (weights : Weights) (a b : List Char) : Except Failure Comparison :=
  compareAnalysesBy orders weights (.ofSource a) (.ofSource b)

/-- Compares two source texts, their grams being visited as they are listed. -/
def compareSources (weights : Weights) (a b : List Char) : Except Failure Comparison :=
  compareAnalyses weights (.ofSource a) (.ofSource b)

/-- The fused score of two source texts. -/
def similarity (weights : Weights) (a b : List Char) : Except Failure Float :=
  (compareSources weights a b).map Comparison.total

end Likeness
