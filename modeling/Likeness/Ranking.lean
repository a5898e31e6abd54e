import Likeness.Comparison
import Likeness.Files.Disk

/-!
# Ranking the pairs of a set of files

Every file is read and analysed once, every pair is compared, and the pairs that reach a threshold are ranked.

* `pairsOf` lists the pairs of a list, the earlier element first;
* `Pair.before` is the order of the ranking: higher scores first, then by the paths;
* `rankBy` makes the ranking, given the orders in which grams are visited for each two places of the list; `rank` visits them
  as they are listed.
-/

namespace Likeness

/-- The comparison of two files. -/
structure Pair where
  a : Path
  b : Path
  comparison : Comparison
  deriving DecidableEq

/-- The ranking of the pairs of a set of files. -/
structure Ranking where
  /-- The pairs that reach the threshold, the most alike first. -/
  pairs : List Pair
  filesAnalyzed : Nat
  pairsCompared : Nat
  durationMs : Nat
  deriving DecidableEq

/-- The pairs of elements of a list, the earlier one first. -/
def pairsOf : List α → List (α × α)
  | [] => []
  | x :: xs => xs.map (x, ·) ++ pairsOf xs

/-- The place of a double in the total order of doubles, in which negative zero comes just before zero. -/
def orderKey (x : Float) : Int :=
  if isNegative x then -(Magnitude.ofFloat x : Int) - 1 else Magnitude.ofFloat x

/-- The order of two pairs: the higher score first, then the first paths, then the second ones. -/
def Pair.order (x y : Pair) : Ordering :=
  ((compare (orderKey y.comparison.total) (orderKey x.comparison.total)).then (x.a.compare y.a)).then (x.b.compare y.b)

/-- Whether a pair may stand before another one in a ranking. -/
def Pair.before (x y : Pair) : Bool :=
  (x.order y).isLE

/-- Reads and analyses a file. -/
def analyseFile (disk : Disk) (path : Path) : Except Failure (Path × Analysis) :=
  match disk.readSource path with
  | .error cause => .error (.io cause path)
  | .ok source => .ok (path, .ofSource source)

/-- Compares two files that have been analysed, each of them given with its place in the list. -/
def comparePair (orders : Nat → Nat → GramOrders) (weights : Weights) :
    ((Path × Analysis) × Nat) × ((Path × Analysis) × Nat) → Except Failure Pair
  | (((a, u), i), ((b, v), j)) => (compareAnalysesBy (orders i j) weights u v).map fun comparison => ⟨a, b, comparison⟩

/-- The pairs that reach a threshold, in the order of a ranking. -/
def ranked (threshold : Float) (pairs : List Pair) : List Pair :=
  (pairs.filter fun p => p.comparison.total >= threshold).mergeSort Pair.before

/-- Ranks the pairs of a list of files. -/
def rankBy (orders : Nat → Nat → GramOrders) (disk : Disk) (weights : Weights) (threshold : Float) (files : List Path) :
    Except Failure Ranking := do
  let analyses ← files.mapM (analyseFile disk)
  let pairs ← (pairsOf analyses.zipIdx).mapM (comparePair orders weights)
  return ⟨ranked threshold pairs, files.length, pairs.length, 0⟩

/-- Ranks the pairs of a list of files, their grams being visited as they are listed. -/
def rank (disk : Disk) (weights : Weights) (threshold : Float) (files : List Path) : Except Failure Ranking :=
  rankBy (fun _ _ => .asListed) disk weights threshold files

end Likeness
