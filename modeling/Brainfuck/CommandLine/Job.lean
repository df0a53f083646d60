import Brainfuck.CommandLine.Arguments
import Brainfuck.CommandLine.Files
import Brainfuck.Interpreter
import Brainfuck.Log.Filter

/-!
# Jobs of the command line

The log filter is read first, then the arguments (`setUp`). The request that they make is turned
into a `Plan` as soon as its source text is read: print something, run a program, or fail. Making
the plan and carrying it out are separate, so that a plan can be carried out on live input and
output as well as on bytes given beforehand (`Request.carryOut`).
-/

namespace Brainfuck.CommandLine

open Log (Event)

/-- What a job goes by, from the setting of the log filter and the arguments. A filter that cannot
be read without a crash ends the job before the arguments are looked at. -/
def setUp (setting : Option String) (arguments : List String) :
    Except (Failure Refusal) (Log.Filter × Request) :=
  match Log.Filter.ofSetting setting with
  | .error crash => .error (.crashed crash)
  | .ok filter =>
    match Request.ofArguments arguments with
    | .error refusal => .error (.reported refusal)
    | .ok request => .ok (filter, request)

/-- The exit code of a job that was not set up. -/
def exitCodeWithoutSetUp : Failure Refusal → Nat
  | .reported .help => 0
  | .reported (.usage _) => 2
  | .crashed _ => 101

/-- What is to be done for a request. -/
inductive Plan
  | print (text : String)
  | run (program : Program) (options : Options)
  | fail (message : String)

/-- The least number of nanoseconds that is too large for a time limit, since its seconds do not fit
into a 64-bit word. -/
def timeLimitEnd : Nat := 18446744073709551616 * nanosecondsPerSecond

/-- The time limit in nanoseconds; none if the number of seconds is not positive, rounds to no time
at all, or is too large. -/
def timeLimit? (seconds : Binary64) : Option Nat :=
  match seconds.times? nanosecondsPerSecond with
  | some nanoseconds =>
    if 0 < nanoseconds ∧ nanoseconds < timeLimitEnd then some nanoseconds else none
  | none => none

namespace Request

/-- The options for running the program, or why there are none. -/
def options (r : Request) : Except String Options :=
  match r.timeLimit with
  | none => .ok { Options.standard with tapeSize := r.tapeSize }
  | some seconds =>
    match timeLimit? seconds with
    | some limit => .ok { Options.standard with tapeSize := r.tapeSize, timeLimit := some limit }
    | none =>
      .error s!"time limit must be a positive number of seconds, got {seconds.text}"

/-- What is to be done with a compiled program. -/
def planFor (r : Request) (p : Program) : Plan :=
  if r.dump then .print p.listing
  else
    match r.options with
    | .ok options => .run p options
    | .error message => .fail message

/-- What is to be done with what was read from the source path, and what is to be reported before
that. -/
def plan (r : Request) (content : Except FileError ByteArray) : List Event × Plan :=
  match content with
  | .error e => ([], .fail s!"failed to read {r.source}: {e.message}")
  | .ok bytes =>
    match Program.compileBytes bytes with
    | .error e => ([], .fail s!"failed to compile {r.source}: {e.chain}")
    | .ok p => ([.compiled (Lexer.ofBytes bytes).tokens.length p.size], r.planFor p)

end Request

/-- What is reported at the end of a run. A crash is none of the events of a job. -/
def eventsAtEnd (ending : Ending) (steps position : Nat) : List Event :=
  match ending with
  | .completed => [.finished steps]
  | .timedOut => [.timeLimitExceeded steps position]
  | .failed (.reported e) => [.failed s!"execution failed: {e.chain}"]
  | .failed (.crashed _) | .suspended => []

/-- What is reported of a run. A run without a tape does not start. -/
def eventsOfRun (p : Program) (o : Options) (r : Report) : List Event :=
  let started :=
    match o.tape? with
    | .ok tape => [Event.started p.size tape.size]
    | .error _ => []
  started ++ eventsAtEnd r.ending r.steps r.position

/-- The exit code for the end of a run; none if the run has not come to an end. A time limit that
passes is no failure. -/
def exitCode? : Ending → Option Nat
  | .completed | .timedOut => some 0
  | .failed (.reported _) => some 1
  | .failed (.crashed _) => some 101
  | .suspended => none

/-- All that a job leaves behind. -/
structure Result where
  /-- None if the job has not come to an end. -/
  exitCode? : Option Nat
  stdout : List UInt8
  events : List Event

/-- Carries out a plan. -/
def Plan.carryOut (s : Surroundings) : Plan → Result
  | print text => ⟨some 0, text.toUTF8.toList, []⟩
  | fail message => ⟨some 1, [], [.failed message]⟩
  | run program options =>
    let report := program.run options s
    ⟨exitCode? report.ending, report.printed, eventsOfRun program options report⟩

/-- Carries out a request whose source path leads through the given tree. -/
def Request.carryOut (r : Request) (root : Node) (s : Surroundings) : Result :=
  let (events, plan) := r.plan (root.read r.source)
  let result := plan.carryOut s
  { result with events := events ++ result.events }

/-- Those events that a filter shows, where `name` gives the names of the parts of the program. -/
def Result.shown (r : Result) (f : Log.Filter) (name : Log.Origin → String) : List Event :=
  r.events.filter fun e => f.shows (name e.origin) e

end Brainfuck.CommandLine
