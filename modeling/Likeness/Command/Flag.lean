import Likeness.Decimal.Literal
import Likeness.Files.Path

/-!
# The words of the command line

* `Verb` lists the commands and `Flag` the options, with their spellings;
* `Invocation` is what a command line asks for;
* `UsageFault` lists the ways in which a command line can be refused.
-/

namespace Likeness.Command

/-- The commands. -/
inductive Verb where
  | compare
  | features
  | matrix
  | config
  deriving DecidableEq, Repr

/-- The options. -/
inductive Flag where
  | help
  | version
  | verbose
  | config
  | json
  | extension
  | threshold
  deriving DecidableEq, Repr

/-- Why a command line is not carried out.  Asking for help or for the version is answered in this way too. -/
inductive UsageFault where
  | displayHelp
  | displayVersion
  | unknownArgument
  | unknownCommand
  | missingOperand
  /-- An option that stands once is given twice. -/
  | repeatedFlag
  /-- A value is given to an option that takes none. -/
  | unneededValue
  /-- An option without its value, or an empty path. -/
  | missingValue
  /-- A value that is no number. -/
  | malformedValue
  deriving DecidableEq, Repr

/-- The exit code of a command line that is not carried out. -/
def UsageFault.exitCode : UsageFault → Nat
  | displayHelp => 0
  | displayVersion => 0
  | _ => 2

namespace Flag

/-- The word after two dashes. -/
def long : Flag → List Char
  | help => "help".toList
  | version => "version".toList
  | verbose => "verbose".toList
  | config => "config".toList
  | json => "json".toList
  | extension => "ext".toList
  | threshold => "threshold".toList

/-- The letter after one dash. -/
def short? : Flag → Option Char
  | help => some 'h'
  | version => some 'V'
  | verbose => some 'v'
  | _ => none

/-- Whether a value follows. -/
def takesValue : Flag → Bool
  | config => true
  | extension => true
  | threshold => true
  | _ => false

/-- Whether an option can be given more than once. -/
def isRepeatable : Flag → Bool
  | extension => true
  | _ => false

/-- What is wrong with a value of an option, if anything is. -/
def valueFault? : Flag → List Char → Option UsageFault
  | config, value => if value = [] then some .missingValue else none
  | threshold, value => if (doubleOf? value).isNone then some .malformedValue else none
  | _, _ => none

end Flag

/-- What can be written on the command line, or after one of its commands. -/
structure Grammar where
  flags : List Flag
  /-- The number of operands that have to follow. -/
  operands : Nat
  /-- Whether commands can follow. -/
  hasVerbs : Bool

/-- What can be written before a command. -/
def Grammar.top : Grammar where
  flags := [.verbose, .config, .help, .version]
  operands := 0
  hasVerbs := true

namespace Verb

/-- All commands. -/
def all : List Verb := [compare, features, matrix, config]

/-- The word for a command. -/
def word : Verb → List Char
  | compare => "compare".toList
  | features => "features".toList
  | matrix => "matrix".toList
  | config => "config".toList

/-- The command with a word. -/
def ofWord? (word : List Char) : Option Verb :=
  all.find? (·.word = word)

/-- What can be written after a command. -/
def grammar : Verb → Grammar
  | compare => ⟨[.json, .verbose, .config, .help], 2, false⟩
  | features => ⟨[.verbose, .config, .help], 2, false⟩
  | matrix => ⟨[.extension, .threshold, .json, .verbose, .config, .help], 1, false⟩
  | config => ⟨[.verbose, .config, .help], 0, false⟩

end Verb

/-- The word that asks for help as a command does. -/
def helpWord : List Char := "help".toList

/-- What a command does. -/
inductive Task where
  /-- Scores two files. -/
  | compare (a b : Path) (json : Bool)
  /-- Shows all scores of two files. -/
  | features (a b : Path)
  /-- Ranks the pairs of source files below a folder. -/
  | matrix (folder : Path) (extensions : List (List Char)) (threshold : Option Float) (json : Bool)
  /-- Shows the settings. -/
  | config

/-- What a command line asks for. -/
structure Invocation where
  verbose : Bool
  /-- The settings file that is named. -/
  settings : Option Path
  task : Option Task

end Likeness.Command
