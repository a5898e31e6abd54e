import Likeness.Failure

/-!
# How a command ends

* `Outcome.success` prints to the standard output, `Outcome.refusal` explains itself on the standard error;
* `Outcome.failure` and `Outcome.failureIn` print nothing and hand on what went wrong.

What is printed may tell how long the command took, so it is a function of that time.
-/

namespace Likeness.Command

/-- The exit codes of the program. -/
inductive ExitCode where
  | success
  | error
  /-- What was asked for makes no sense, such as too few files to compare. -/
  | invalidInput
  deriving DecidableEq, Repr

/-- The number of an exit code. -/
def ExitCode.toNat : ExitCode → Nat
  | success => 0
  | error => 1
  | invalidInput => 2

/-- What went wrong in a command, and what the command was doing. -/
structure Mishap where
  context : Option String
  failure : Failure
  deriving DecidableEq

/-- What the command was doing, the failure and the causes below it, on one line. -/
def Mishap.account (m : Mishap) : String :=
  ": ".intercalate (m.context.toList ++ m.failure.message :: m.failure.causes)

/-- How a command ends. -/
structure Outcome where
  /-- What is printed, given the time in milliseconds that the command took. -/
  stdout : Nat → String
  stderr : String
  ending : Except Mishap ExitCode

namespace Outcome

/-- A command that did what was asked, whatever the time it took is. -/
def success (text : String) : Outcome :=
  ⟨fun _ => text, "", .ok .success⟩

/-- A command that did what was asked and tells the time it took. -/
def timedSuccess (text : Nat → String) : Outcome :=
  ⟨text, "", .ok .success⟩

/-- A command that was refused. -/
def refusal (text : String) : Outcome :=
  ⟨fun _ => "", text, .ok .invalidInput⟩

/-- A command that failed. -/
def failure (f : Failure) : Outcome :=
  ⟨fun _ => "", "", .error ⟨none, f⟩⟩

/-- A command that failed while it was doing something that is told first. -/
def failureIn (context : String) (f : Failure) : Outcome :=
  ⟨fun _ => "", "", .error ⟨some context, f⟩⟩

end Outcome

end Likeness.Command
