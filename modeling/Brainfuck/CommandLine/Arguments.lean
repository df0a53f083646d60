import Brainfuck.Binary64.Decimal
import Brainfuck.Options

/-!
# Arguments of the command line

`SOURCE [--tape-size N] [--time-limit SECONDS] [--dump]`, in any order. The value of an option
follows it as the next argument or behind an equals sign. Each option may be given once. A value
that starts with a dash needs the equals sign, and behind `--` there are no options.

How arguments are split and read follows the documented behaviour of a library that is not part of
the program. What a `Request` asks for is the program's own; no theorem depends on how one is read.
-/

namespace Brainfuck.CommandLine

/-- What the command line asks for. -/
structure Request where
  /-- The path of the source text. -/
  source : String
  tapeSize : Nat
  /-- The time limit in seconds. -/
  timeLimit : Option Binary64
  /-- Print the listing instead of running the program. -/
  dump : Bool
  deriving DecidableEq, Repr

/-- An option of the command line. -/
inductive Flag
  | tapeSize
  | timeLimit
  | dump
  deriving DecidableEq, Repr

/-- The option as it is written. -/
def Flag.name : Flag → String
  | tapeSize => "--tape-size"
  | timeLimit => "--time-limit"
  | dump => "--dump"

/-- What is wrong with the arguments. -/
inductive UsageError
  | missingSource
  | unexpected (argument : String)
  | repeated (flag : Flag)
  | missingValue (flag : Flag)
  | invalidValue (flag : Flag) (value : String)
  /-- The option takes no value. -/
  | needlessValue (flag : Flag)
  deriving DecidableEq, Repr

def UsageError.message : UsageError → String
  | missingSource => "a path to the source text is required"
  | unexpected argument => s!"unexpected argument '{argument}'"
  | repeated flag => s!"'{flag.name}' cannot be used more than once"
  | missingValue flag => s!"'{flag.name}' needs a value"
  | invalidValue flag value => s!"'{value}' is no value for '{flag.name}'"
  | needlessValue flag => s!"'{flag.name}' takes no value"

/-- Why the arguments do not make a request. -/
inductive Refusal
  /-- Help was asked for. -/
  | help
  | usage (error : UsageError)
  deriving DecidableEq, Repr

/-- How the command line is used. -/
def usage : String := "SOURCE [--tape-size N] [--time-limit SECONDS] [--dump]"

/-- What has been given so far. -/
structure Given where
  source : Option String
  tapeSize : Option Nat
  timeLimit : Option Binary64
  dump : Bool

namespace Given

/-- Nothing has been given yet. -/
def nothing : Given := ⟨none, none, none, false⟩

/-- Takes the path of the source text. -/
def takeSource (g : Given) (path : String) : Except Refusal Given :=
  if g.source.isSome then .error (.usage (.unexpected path))
  else if path.isEmpty then .error (.usage .missingSource)
  else .ok { g with source := some path }

/-- Takes an option with its value. -/
def takeValue (g : Given) (flag : Flag) (value : String) : Except Refusal Given :=
  match flag with
  | .dump => .error (.usage (.needlessValue flag))
  | .tapeSize =>
    if g.tapeSize.isSome then .error (.usage (.repeated flag))
    else match Text.readWord? value with
      | some size => .ok { g with tapeSize := some size }
      | none => .error (.usage (.invalidValue flag value))
  | .timeLimit =>
    if g.timeLimit.isSome then .error (.usage (.repeated flag))
    else match Binary64.ofText? value with
      | some seconds => .ok { g with timeLimit := some seconds }
      | none => .error (.usage (.invalidValue flag value))

/-- Takes the option that has no value. -/
def takeDump (g : Given) : Except Refusal Given :=
  if g.dump then .error (.usage (.repeated .dump)) else .ok { g with dump := true }

/-- The request, if a source text was given. -/
def request (g : Given) : Except Refusal Request :=
  match g.source with
  | none => .error (.usage .missingSource)
  | some source =>
    .ok ⟨source, g.tapeSize.getD Options.standard.tapeSize, g.timeLimit, g.dump⟩

end Given

/-- An argument in front of `--`, by its form. -/
inductive Argument
  | plain (text : String)
  /-- An option, and the value behind its equals sign if there is one. -/
  | flag (flag : Flag) (value : Option String)
  | help
  /-- The end of the options. -/
  | endOfFlags
  | unknown (text : String)

/-- The option with the given name, if there is one. -/
def flagNamed? (name : String) : Option Flag :=
  [Flag.tapeSize, Flag.timeLimit, Flag.dump].find? (·.name = name)

/-- Tells the form of an argument. A lone dash is no option. -/
def Argument.ofText (text : String) : Argument :=
  let cs := text.toList
  if text = "--" then endOfFlags
  else if text = "--help" ∨ text = "-h" then help
  else if text = "-" ∨ ¬text.startsWith "-" then plain text
  else
    let name := String.ofList (cs.takeWhile (· ≠ '='))
    let value := match cs.dropWhile (· ≠ '=') with
      | _ :: value => some (String.ofList value)
      | [] => none
    match flagNamed? name with
    | some f => flag f value
    | none => unknown text

/-- The argument can be the value of an option in front of it. -/
def canBeValue (text : String) : Bool :=
  match Argument.ofText text with
  | .plain _ => true
  | _ => false

/-- Takes arguments that are no options. -/
def Given.takeSources (g : Given) : List String → Except Refusal Given
  | [] => .ok g
  | path :: rest =>
    match g.takeSource path with
    | .ok g => g.takeSources rest
    | .error refusal => .error refusal

/-- Takes arguments one after the other. `waiting` is an option whose value comes next. -/
def Given.take (g : Given) (waiting : Option Flag) : List String → Except Refusal Given
  | [] =>
    match waiting with
    | some flag => .error (.usage (.missingValue flag))
    | none => .ok g
  | argument :: rest =>
    match waiting with
    | some flag =>
      if canBeValue argument then do (← g.takeValue flag argument).take none rest
      else .error (.usage (.missingValue flag))
    | none =>
      match Argument.ofText argument with
      | .endOfFlags => g.takeSources rest
      | .help => .error .help
      | .unknown text => .error (.usage (.unexpected text))
      | .plain path => do (← g.takeSource path).take none rest
      | .flag flag (some value) => do (← g.takeValue flag value).take none rest
      | .flag .dump none => do (← g.takeDump).take none rest
      | .flag flag none => g.take (some flag) rest

/-- Reads the arguments of the command line. -/
def Request.ofArguments (arguments : List String) : Except Refusal Request := do
  (← Given.nothing.take none arguments).request

end Brainfuck.CommandLine
