import Likeness.Ranking
import Likeness.Report.Ink
import Likeness.Report.JsonText

/-!
# Reports

What is shown of a comparison and of a ranking, for people and for programs.

* `comparisonText` and `comparisonJson` show the score of two files;
* `featuresJson` shows all scores of two files on one line;
* `rankingText` and `rankingJson` show a ranking.
-/

namespace Likeness

/-- A score as a percentage with two places. -/
def percentText (x : Float) : String :=
  String.ofList (fixedText 2 (x * 100.0))

/-- A text moved to the right in a column. -/
def padLeft (width : Nat) (text : String) : String :=
  String.ofList (text.toList.leftpad width ' ')

/-- The score of two files, for people. -/
def comparisonText (coloured : Bool) (a b : Path) (similarity : Float) : String :=
  "File 1: " ++ a.display ++ "\nFile 2: " ++ b.display ++ "\nSimilarity: "
    ++ Ink.bold.paint coloured (String.ofList (fixedText 4 similarity)) ++ " (" ++ percentText similarity ++ "%)\n"

/-- The score of two files as JSON. -/
def comparisonJson (similarity : Float) : String :=
  (JsonValue.object [("similarity", .number similarity)]).compact

/-- All scores of two files as one line of JSON, in the order of the keys. -/
def featuresJson (c : Comparison) : String :=
  (JsonValue.sorted (
    [("kw", .number c.scores.keyword), ("id", .number c.scores.identifier), ("op", .number c.scores.operator),
      ("seq", .number c.scores.sequence), ("len", .number c.scores.length),
      ("t1", .natural c.tokensA), ("t2", .natural c.tokensB)]
    ++ c.sequenceScales.map (fun s => ("seq" ++ toString s.width, .number s.score))
    ++ [("total", .number c.total)])).compact

/-- A line across the report. -/
def ruleText (coloured : Bool) : String :=
  Ink.dimmed.paint coloured (String.ofList (List.replicate 70 '─'))

/-- The ink for a score: the more alike, the more alarming. -/
def scoreInk (similarity : Float) : Ink :=
  if similarity >= 0.8 then .boldRed else if similarity >= 0.5 then .yellow else .green

/-- A path as it is shown below a folder. -/
def shownBelow (root path : Path) : String :=
  ((path.relativeTo? root).getD path).display

/-- A ranked pair on a line. -/
def pairText (coloured : Bool) (root : Path) (place : Nat) (p : Pair) : String :=
  padLeft 4 (toString place) ++ ". "
    ++ (scoreInk p.comparison.total).paint coloured (padLeft 6 (percentText p.comparison.total) ++ "%") ++ "  "
    ++ shownBelow root p.a ++ "  " ++ Ink.dimmed.paint coloured (shownBelow root p.b)

/-- A ranking, for people.  Paths are shown below the folder that was searched. -/
def rankingText (coloured : Bool) (root : Path) (r : Ranking) : String :=
  let count (n : Nat) := Ink.white.paint coloured (toString n)
  let lines :=
    [ruleText coloured, Ink.boldCyan.paint coloured " SIMILARITY MATRIX ", ruleText coloured,
      "   Files analyzed:  " ++ count r.filesAnalyzed,
      "   Pairs compared:  " ++ count r.pairsCompared,
      "   Analysis time:   " ++ count r.durationMs ++ "ms",
      ""]
    ++ (if r.pairs.isEmpty then [Ink.green.paint coloured "No pairs at or above the threshold."] else [])
    ++ r.pairs.mapIdx (fun i p => pairText coloured root (i + 1) p)
    ++ [ruleText coloured]
  String.join (lines.map (· ++ "\n"))

/-- The scores of the aspects as JSON. -/
def scoresJson (s : Scores) : JsonValue :=
  .object (Aspect.all.map fun a => (a.name, .number (s.get a)))

/-- The cosines at several widths as JSON. -/
def scalesJson (scales : List ScaleScore) : JsonValue :=
  .array (scales.map fun s => .object [("width", .natural s.width), ("score", .number s.score)])

/-- All that a comparison finds as JSON. -/
def comparisonRecord (c : Comparison) : JsonValue :=
  .object
    [("scores", scoresJson c.scores),
      ("sequence_scales", scalesJson c.sequenceScales),
      ("identifier_scales", scalesJson c.identifierScales),
      ("tokens_a", .natural c.tokensA),
      ("tokens_b", .natural c.tokensB),
      ("keyword_distance", .number c.keywordDistance),
      ("operator_distance", .number c.operatorDistance),
      ("total", .number c.total)]

/-- A ranking as JSON over several lines. -/
def rankingJson (r : Ranking) : String :=
  (JsonValue.object
    [("pairs", .array (r.pairs.map fun p =>
        .object [("a", .string p.a.display), ("b", .string p.b.display), ("report", comparisonRecord p.comparison)])),
      ("files_analyzed", .natural r.filesAnalyzed),
      ("pairs_compared", .natural r.pairsCompared),
      ("duration_ms", .natural r.durationMs)]).pretty

end Likeness
