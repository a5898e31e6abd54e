import Likeness.Command.Flag
import Likeness.Command.Help
import Likeness.Command.Outcome
import Likeness.Discovery
import Likeness.Report.Summary
import Likeness.Settings.File

/-!
# Carrying out a command

* `runCompare`, `runFeatures`, `runMatrix` and `runConfig` carry out the four commands under given settings;
* `run` loads the settings first, if there is a command.

Nothing is printed before the last step that can fail.
-/

namespace Likeness.Command

/-- The word that complaints on the standard error start with. -/
def errorWord (coloured : Bool) : String :=
  Ink.boldRed.paint coloured "error:"

/-- Reads two source files, the first one first. -/
def readBoth (disk : Disk) (a b : Path) : Except Failure (List Char × List Char) := do
  let first ← orIo a (disk.readSource a)
  let second ← orIo b (disk.readSource b)
  return (first, second)

/-- Scores two files. -/
def runCompare (disk : Disk) (coloured : Bool) (settings : Settings) (a b : Path) (json : Bool) : Outcome :=
  match readBoth disk a b with
  | .error failure => .failure failure
  | .ok (first, second) =>
    match similarity settings.weights first second with
    | .error failure => .failureIn "Failed to score files" failure
    | .ok score => .success (if json then comparisonJson score ++ "\n" else comparisonText coloured a b score)

/-- Shows all scores of two files. -/
def runFeatures (disk : Disk) (settings : Settings) (a b : Path) : Outcome :=
  match readBoth disk a b with
  | .error failure => .failure failure
  | .ok (first, second) =>
    match compareSources settings.weights first second with
    | .error failure => .failureIn "Failed to extract features" failure
    | .ok comparison => .success (featuresJson comparison ++ "\n")

/-- The settings with the extensions and the threshold of the command line, if there are any. -/
def overridden (settings : Settings) (extensions : List Name) (threshold : Option Float) : Settings :=
  { settings with
    extensions := if extensions.isEmpty then settings.extensions else extensions
    threshold := threshold.getD settings.threshold }

/-- The complaint that a folder holds too few source files. -/
def tooFewText (coloured : Bool) (settings : Settings) (folder : Path) (found : Nat) : String :=
  errorWord coloured ++ " found " ++ toString found ++ " source file(s) with extensions ["
    ++ ", ".intercalate (settings.extensions.map String.ofList) ++ "] under " ++ folder.display
    ++ "; need at least 2\n"

/-- Ranks the pairs of source files below a folder. -/
def runMatrix (disk : Disk) (coloured : Bool) (settings : Settings) (folder : Path) (json : Bool) : Outcome :=
  match settings.check with
  | .error failure => .refusal (errorWord coloured ++ " " ++ failure.message ++ "\n")
  | .ok () =>
    match discover disk settings folder with
    | .error failure => .failureIn ("Failed to scan " ++ folder.display) failure
    | .ok files =>
      if files.length < 2 then .refusal (tooFewText coloured settings folder files.length)
      else
        match rank disk settings.weights settings.threshold files with
        | .error failure => .failure failure
        | .ok ranking => .timedSuccess fun time =>
            let ranking := { ranking with durationMs := time }
            if json then rankingJson ranking ++ "\n" else rankingText coloured folder ranking

/-- Shows the settings. -/
def runConfig (settings : Settings) : Outcome :=
  let origin := match settings.source with
    | some path => "# loaded from " ++ path.display ++ "\n"
    | none => "# defaults (no " ++ Settings.fileName.display ++ " found)\n"
  .success (origin ++ String.ofList settings.text)

/-- Carries out a task under settings. -/
def runTask (disk : Disk) (coloured : Bool) (settings : Settings) : Task → Outcome
  | .compare a b json => runCompare disk coloured settings a b json
  | .features a b => runFeatures disk settings a b
  | .matrix folder extensions threshold json =>
    runMatrix disk coloured (overridden settings extensions threshold) folder json
  | .config => runConfig settings

/-- Carries out what a command line asks for.  Without a command the help text is printed and no settings are loaded. -/
def run (disk : Disk) (coloured : Bool) (invocation : Invocation) : Outcome :=
  match invocation.task with
  | none => .success helpText
  | some task =>
    match Settings.load disk invocation.settings with
    | .error failure => .failure failure
    | .ok settings => runTask disk coloured settings task

end Likeness.Command
