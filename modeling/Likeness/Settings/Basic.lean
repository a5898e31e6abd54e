import Likeness.Files.Path
import Likeness.Weights

/-!
# Settings

* `Settings.check` accepts settings that can be used;
* `Settings.isSource` says which paths name source files.
-/

namespace Likeness

/-- What can be set. -/
structure Settings where
  weights : Weights
  /-- The extensions of source files, without the dot. -/
  extensions : List Name
  /-- Pairs whose score is below are not reported. -/
  threshold : Float
  /-- The file that the settings come from. -/
  source : Option Path
  deriving DecidableEq

namespace Settings

/-- The settings where nothing else is set. -/
def default : Settings where
  weights := Weights.default
  extensions := ["java".toList]
  threshold := 0.0
  source := none

/-- The file that is read if no other one is named. -/
def fileName : Path := .ofString "codesim.toml"

/-- The file that is named when settings are at fault. -/
def place (s : Settings) : Path :=
  s.source.getD fileName

/-- Whether a number can be a threshold. -/
def isThreshold (x : Float) : Bool :=
  0.0 <= x && x <= 1.0

/-- Refuses settings whose weights are unusable, that name no extension, or whose threshold is not between 0 and 1; the first
fault in this order counts. -/
def check (s : Settings) : Except Failure Unit :=
  match s.weights.check with
  | .error failure => .error failure
  | .ok () =>
    if s.extensions = [] then .error (.noExtensions s.place)
    else if isThreshold s.threshold then .ok ()
    else .error (.thresholdRange s.place)

/-- A text with its ASCII letters in lower case. -/
def lowerAscii (text : List Char) : List Char :=
  text.map Char.toLower

/-- Whether a path has the extension of a source file, up to the case of ASCII letters. -/
def isSource (s : Settings) (path : Path) : Bool :=
  match path.extension? with
  | none => false
  | some extension => s.extensions.any fun allowed => lowerAscii allowed = lowerAscii extension

end Settings

end Likeness
