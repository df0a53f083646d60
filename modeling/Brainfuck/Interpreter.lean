import Brainfuck.Clock
import Brainfuck.Options
import Brainfuck.Program.Compile
import Brainfuck.Session

/-!
# Running a program with options

`run` checks the options, makes a fresh tape, connects the input and the output that were chosen,
and runs the program. `interpret` compiles a source text first.

What the live input holds is given beforehand. What a run sends to the live output or to a callback
is part of its `Report`, also if the run fails; a buffer is only there if it does not.
-/

namespace Brainfuck

/-- The result of a run that ended well. -/
structure Outcome where
  /-- All that was written, if it was to be returned. -/
  output : Option (List UInt8)
  timedOut : Bool
  deriving DecidableEq, Repr

/-- The run ended without a failure. -/
def Ending.succeeded : Ending → Bool
  | completed | timedOut => true
  | failed _ | suspended => false

/-- All that a run did. -/
structure Report where
  ending : Ending
  /-- What was written, if the caller of the run gets it back. -/
  returned : Option (List UInt8)
  /-- What the callback was told, front to back. -/
  told : List UInt8
  /-- What was seen on the live output, front to back. -/
  printed : List UInt8
  /-- How many opcodes were executed. -/
  steps : Nat
  /-- The index of the next opcode. -/
  position : Nat
  deriving Repr

namespace Report

/-- A run that did not start. -/
def unstarted (failure : Failure Error) : Report := ⟨.failed failure, none, [], [], 0, 0⟩

/-- What has come out of the run by way of `output`. -/
def sentTo (r : Report) : Output → List UInt8
  | .stdout => r.printed
  | .buffer => r.returned.getD []
  | .callback => r.told

/-- The result that the caller of a run gets; none if the run was only suspended. -/
def result? (r : Report) : Option (Except (Failure Error) Outcome) :=
  match r.ending with
  | .completed => some (.ok ⟨r.returned, false⟩)
  | .timedOut => some (.ok ⟨r.returned, true⟩)
  | .failed failure => some (.error failure)
  | .suspended => none

end Report

/-- The feed behind an input. -/
def Input.feed (stdin : LiveInput) : Input → Feed
  | .stdin => .live stdin
  | .bytes content => .bytes content
  | .callback answer => .callback answer 0

/-- Everything outside of a run that it depends on. -/
structure Surroundings where
  stdin : LiveInput
  clock : Clock
  /-- How many opcodes are dispatched at most before the run is suspended. -/
  budget : Nat

namespace Program

/-- Runs a program on a tape, with a sink that starts as `device`. -/
def execute {τ : Type} (p : Program) (tape : Tape) (o : Options) (s : Surroundings) (sink : Sink τ)
    (device : τ) : Ending × Session (Feed × τ) :=
  Session.run (.joined .fed sink) (s.clock.expired o.timeLimit) s.budget
    ⟨.start p tape, (o.input.feed s.stdin, device)⟩

/-- Runs a program on a fresh tape. A buffer is dropped unless the run succeeds. -/
def run (p : Program) (o : Options) (s : Surroundings) : Report :=
  match o.tape? with
  | .error failure => .unstarted failure
  | .ok tape =>
    match o.output with
    | .stdout =>
      let (ending, ⟨machine, _, output⟩) := p.execute tape o s .stdout .untouched
      ⟨ending, none, [], output.delivered.toList, machine.steps, machine.position⟩
    | .buffer =>
      let (ending, ⟨machine, _, kept⟩) := p.execute tape o s .buffer #[]
      let returned := if ending.succeeded then some kept.toList else none
      ⟨ending, returned, [], [], machine.steps, machine.position⟩
    | .callback =>
      let (ending, ⟨machine, _, told⟩) := p.execute tape o s .callback []
      ⟨ending, none, told.reverse, [], machine.steps, machine.position⟩

end Program

/-- Compiles a source text and runs it. -/
def interpret (text : String) (o : Options) (s : Surroundings) : Report :=
  match Program.compile text with
  | .error e => .unstarted (.reported (.unmatchedBracket e))
  | .ok p => p.run o s

/-- Compiles bytes that have to be text and runs them. -/
def interpretBytes (bytes : ByteArray) (o : Options) (s : Surroundings) : Report :=
  match Program.compileBytes bytes with
  | .error e => .unstarted (.reported e)
  | .ok p => p.run o s

end Brainfuck
