import Likeness.Command.Flag

/-!
# Reading a command line

Arguments are read from left to right.  An option waits for its value, and an operand for what follows it, before it counts:
whatever is wrong with it comes to light only then, and not at all if the next argument cannot be read.

* `Reading.step` reads one argument;
* `readInvocation` reads a command line.
-/

namespace Likeness.Command

/-- What has been read and does not count yet. -/
inductive Pending where
  | nothing
  | flag (f : Flag) (value : Option (List Char))
  | operand (text : List Char)
  deriving DecidableEq, Repr

/-- What has been read of a command line. -/
structure Reading where
  /-- The options without values. -/
  switches : List Flag
  /-- The options with values, in order. -/
  values : List (Flag × List Char)
  operands : List (List Char)
  pending : Pending
  /-- Whether only operands can follow, after two dashes alone. -/
  trailing : Bool

namespace Reading

/-- Nothing has been read. -/
def empty : Reading :=
  ⟨[], [], [], .nothing, false⟩

/-- Whether an option waits for its value. -/
def awaitsValue (r : Reading) : Bool :=
  match r.pending with
  | .flag _ none => true
  | _ => false

/-- Counts an option with its value. -/
def addValue (r : Reading) (f : Flag) (value : List Char) : Except UsageFault Reading :=
  if !f.isRepeatable ∧ r.values.any (·.1 = f) then .error .repeatedFlag
  else match f.valueFault? value with
    | some fault => .error fault
    | none => .ok { r with values := r.values ++ [(f, value)], pending := .nothing }

/-- Counts what is pending. -/
def settle (r : Reading) : Except UsageFault Reading :=
  match r.pending with
  | .nothing => .ok r
  | .flag _ none => .error .missingValue
  | .flag f (some value) => r.addValue f value
  | .operand [] => .error .missingValue
  | .operand text => .ok { r with operands := r.operands ++ [text], pending := .nothing }

/-- Counts an option without a value. -/
def switchOn (r : Reading) (f : Flag) : Except UsageFault Reading := do
  let r ← r.settle
  if f = .help then .error .displayHelp
  else if f = .version then .error .displayVersion
  else if f ∈ r.switches then .error .repeatedFlag
  else return { r with switches := r.switches ++ [f] }

/-- Reads an option written with two dashes, and the value that is attached by an equals sign. -/
def longFlag (g : Grammar) (r : Reading) (name : List Char) (value : Option (List Char)) : Except UsageFault Reading :=
  match g.flags.find? (·.long = name) with
  | none => .error .unknownArgument
  | some f =>
    if f.takesValue then do
      let r ← r.settle
      match value with
      | some value => r.addValue f value
      | none => return { r with pending := .flag f none }
    else if value.isSome then .error .unneededValue
    else r.switchOn f

/-- Reads options written as letters after one dash. -/
def shortFlags (g : Grammar) (r : Reading) : List Char → Except UsageFault Reading
  | [] => .ok r
  | letter :: letters =>
    match g.flags.find? (·.short? = some letter) with
    | none => .error .unknownArgument
    | some f => do shortFlags g (← r.switchOn f) letters

/-- The number of operands that have been read. -/
def operandCount (r : Reading) : Nat :=
  match r.pending with
  | .operand _ => r.operands.length + 1
  | _ => r.operands.length

/-- Reads an operand. -/
def operand (g : Grammar) (r : Reading) (text : List Char) : Except UsageFault Reading :=
  if r.operandCount < g.operands then do
    return { (← r.settle) with pending := .operand text }
  else if g.hasVerbs then
    if r.trailing ∧ (text = helpWord ∨ (Verb.ofWord? text).isSome) then .error .unknownArgument
    else .error .unknownCommand
  else .error .unknownArgument

/-- Reads one argument. -/
def step (g : Grammar) (r : Reading) (argument : List Char) : Except UsageFault Reading :=
  if r.trailing then r.operand g argument
  else match argument with
    | ['-', '-'] => .ok { r with trailing := true }
    | '-' :: '-' :: word =>
      let name := word.takeWhile (· ≠ '=')
      r.longFlag g name (if name.length < word.length then some (word.drop (name.length + 1)) else none)
    | '-' :: letter :: letters => r.shortFlags g (letter :: letters)
    | text =>
      match r.pending with
      | .flag f none => .ok { r with pending := .flag f (some text) }
      | _ => r.operand g text

/-- Reads all arguments of a command. -/
def steps (g : Grammar) (arguments : List (List Char)) : Except UsageFault Reading := do
  let r ← arguments.foldlM (step g) empty
  let r ← r.settle
  if r.operands.length < g.operands then .error .missingOperand else return r

/-- The last value of an option. -/
def value? (r : Reading) (f : Flag) : Option (List Char) :=
  ((r.values.filter (·.1 = f)).getLast?).map Prod.snd

/-- The values of an option. -/
def valuesOf (r : Reading) (f : Flag) : List (List Char) :=
  (r.values.filter (·.1 = f)).map Prod.snd

end Reading

/-- The answer to the request for help, with the words of a command that help is asked for. -/
def helpFor : List (List Char) → UsageFault
  | [] => .displayHelp
  | [word] => if word = helpWord ∨ (Verb.ofWord? word).isSome then .displayHelp else .unknownCommand
  | _ => .unknownCommand

/-- Reads the arguments up to a command and then those of the command. -/
def readTop (r : Reading) : List (List Char) → Except UsageFault (Reading × Option (Verb × Reading))
  | [] => .ok (r, none)
  | argument :: arguments =>
    if !r.trailing ∧ !r.awaitsValue ∧ argument = helpWord then .error (helpFor arguments)
    else match (if r.trailing || r.awaitsValue then none else Verb.ofWord? argument) with
      | some verb => do return (r, some (verb, ← Reading.steps verb.grammar arguments))
      | none => do readTop (← r.step .top argument) arguments

/-- The task of a command, from what has been read after it. -/
def taskOf (verb : Verb) (r : Reading) : Option Task :=
  let json := decide (Flag.json ∈ r.switches)
  match verb, r.operands with
  | .compare, [a, b] => some (.compare ⟨a⟩ ⟨b⟩ json)
  | .features, [a, b] => some (.features ⟨a⟩ ⟨b⟩)
  | .matrix, [folder] =>
    some (.matrix ⟨folder⟩ (r.valuesOf .extension) ((r.value? .threshold).bind doubleOf?) json)
  | .config, [] => some .config
  | _, _ => none

/-- Reads a command line.  Options that can stand in both places count from after the command first. -/
def readInvocation (arguments : List (List Char)) : Except UsageFault Invocation := do
  let (top, command) ← readTop .empty arguments
  let top ← top.settle
  match command with
  | none => return ⟨decide (Flag.verbose ∈ top.switches), (top.value? .config).map (⟨·⟩), none⟩
  | some (verb, r) =>
    return ⟨decide (Flag.verbose ∈ top.switches) || decide (Flag.verbose ∈ r.switches),
      ((r.value? .config).or (top.value? .config)).map (⟨·⟩), taskOf verb r⟩

end Likeness.Command
