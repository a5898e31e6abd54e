import Likeness.Command.Flag

/-!
# The help text

* `helpText` is printed when no command is given;
* `UsageFault.text` is printed when a command line is not carried out.
-/

namespace Likeness.Command

/-- The help text, line by line. -/
def helpLines : List String :=
  ["Structural similarity scoring for source code",
    "",
    "Usage: codesim [OPTIONS] [COMMAND]",
    "",
    "Commands:",
    "  compare   Score two source files",
    "  features  Dump every sub-score for two files as one JSON line",
    "  matrix    Score every pair of source files under a directory",
    "  config    Print the effective configuration as TOML",
    "  help      Print this message or the help of the given subcommand(s)",
    "",
    "Options:",
    "  -v, --verbose        Enable debug logging on stderr",
    "      --config <FILE>  Config file (defaults to ./codesim.toml when present)",
    "  -h, --help           Print help",
    "  -V, --version        Print version"]

/-- The help text. -/
def helpText : String :=
  String.join (helpLines.map (· ++ "\n"))

/-- What is printed when a command line is not carried out. -/
def UsageFault.text : UsageFault → String
  | displayHelp => helpText
  | displayVersion => "codesim 1.0.0\n"
  | unknownArgument => "error: unexpected argument found\n"
  | unknownCommand => "error: unrecognized subcommand\n"
  | missingOperand => "error: the required arguments were not provided\n"
  | repeatedFlag => "error: an argument cannot be used multiple times\n"
  | unneededValue => "error: unexpected value found for an argument\n"
  | missingValue => "error: a value is required for an argument but none was supplied\n"
  | malformedValue => "error: invalid value for an argument\n"

end Likeness.Command
