import Likeness.Files.Disk
import Likeness.Settings.Basic
import Likeness.Toml.Document
import Likeness.Toml.Printer

/-!
# Settings files

Settings are written in TOML, with a section for the weights and one for the scan.

* `Settings.ofTable?` takes settings from a document; what it does not set has its default;
* `Settings.ofText` reads and checks a document;
* `Settings.text` writes settings;
* `Settings.load` looks for the file to read.

A section is a table of keys, or an array of the values in the order in which the keys are written.  Keys that are not known
mean nothing.  A date in the place of a section sets nothing.
-/

namespace Likeness

open Toml (Key Value)

/-- What a section sets. -/
structure Section where
  /-- The value for the key with a place in the order of the keys. -/
  get? : Nat → Key → Option Value

namespace Section

/-- The section that sets nothing. -/
def empty : Section := ⟨fun _ _ => none⟩

/-- The section that a value stands for. -/
def ofValue? : Value → Option Section
  | .table entries => some ⟨fun _ key => entries.lookup key⟩
  | .array items => some ⟨fun place _ => items[place]?⟩
  | .moment => some empty
  | _ => none

/-- The section under a key of a document; one that is missing sets nothing. -/
def find? (document : List (Key × Value)) (key : String) : Option Section :=
  match document.lookup key.toList with
  | none => some empty
  | some v => ofValue? v

end Section

/-- The double that a value stands for.  Integers are rounded to the nearest. -/
def numberOf? : Value → Option Float
  | .integer n => some (Decimal.toFloat (decide (n < 0)) ⟨n.natAbs, 0⟩)
  | .float x => some x
  | _ => none

/-- The string that a value is. -/
def stringOf? : Value → Option (List Char)
  | .string s => some s
  | _ => none

/-- The strings that a value lists. -/
def stringsOf? : Value → Option (List (List Char))
  | .array items => items.mapM stringOf?
  | _ => none

/-- What a section sets for a key, or the default.  A value of the wrong type is refused. -/
def setting (read? : Value → Option α) (default : α) (s : Section) (place : Nat) (key : String) : Option α :=
  match s.get? place key.toList with
  | none => some default
  | some v => read? v

namespace Settings

/-- The weights that a section sets. -/
def weightsOf? (s : Section) : Option Weights := do
  let weight (place : Nat) (a : Aspect) := setting numberOf? (Weights.default.get a) s place a.name
  return {
    keyword := ← weight 0 .keyword
    identifier := ← weight 1 .identifier
    operator := ← weight 2 .operator
    sequence := ← weight 3 .sequence
    length := ← weight 4 .length }

/-- The settings in a document. -/
def ofTable? (document : List (Key × Value)) : Option Settings := do
  let weights ← weightsOf? (← Section.find? document "weights")
  let scan ← Section.find? document "scan"
  let extensions ← setting stringsOf? default.extensions scan 0 "extensions"
  let threshold ← setting numberOf? default.threshold scan 1 "report_threshold"
  return { weights, extensions, threshold, source := none }

/-- Reads and checks the text of a settings file.  The origin is the file that failures name. -/
def ofText (text : List Char) (origin : Path) : Except Failure Settings :=
  match (Toml.document? text).bind ofTable? with
  | none => .error (.settingsText origin)
  | some settings =>
    match settings.check with
    | .ok () => .ok settings
    | .error failure => .error (.settings origin failure)

/-- Settings as the text of a file. -/
def text (s : Settings) : List Char :=
  Toml.headerText "weights".toList
    ++ (Aspect.all.flatMap fun a => Toml.entryText a.name.toList (Toml.numberText (s.weights.get a)))
    ++ '\n' :: Toml.headerText "scan".toList
    ++ Toml.entryText "extensions".toList (Toml.arrayText s.extensions)
    ++ Toml.entryText "report_threshold".toList (Toml.numberText s.threshold)

/-- Reads a settings file. -/
def ofFile (disk : Disk) (path : Path) : Except Failure Settings :=
  match disk.readText path with
  | .error cause => .error (.io cause path)
  | .ok text => (ofText text path).map ({ · with source := some path })

/-- The settings of the file that is named, else of the file with the usual name if there is one, else the defaults. -/
def load (disk : Disk) : Option Path → Except Failure Settings
  | some path => ofFile disk path
  | none => if disk.isFile fileName then ofFile disk fileName else .ok default

end Settings

end Likeness
