import Brainfuck.CommandLine.Job
import Brainfuck.Session.Host

/-!
# Jobs at a terminal

What a job does with the effects of the place where it runs (`Terminal`): it reads its source file,
prints, writes its log, and runs a machine on the live input and output. `Request.carryOutAt` does
so step by step, where `Request.carryOut` tells beforehand what will be left behind.

At `Terminal.recorded` these are the same. Its input, its clock and its files are given beforehand,
and what happens there is kept as a `Record`.
-/

namespace Brainfuck.CommandLine

/-- The place where a job runs. -/
structure Terminal (μ : Type → Type) where
  readFile : String → μ (Except FileError ByteArray)
  print : String → μ Unit
  /-- Writes events to the log. -/
  log : List Log.Event → μ Unit
  /-- Says that the job has crashed. -/
  lament : Crash → μ Unit
  /-- Runs a machine for no longer than the limit, on the live input and output. -/
  run : Option Nat → Machine → μ (Ending × Machine)

section Jobs

variable {μ : Type → Type} [Monad μ]

/-- Says how a run ended, and tells the exit code. -/
def Terminal.conclude (t : Terminal μ) (ending : Ending) (steps position : Nat) :
    μ (Option Nat) := do
  t.log (eventsAtEnd ending steps position)
  match ending with
  | .failed (.crashed crash) => t.lament crash
  | _ => pure ()
  return exitCode? ending

/-- Carries out a plan and tells the exit code; none if the job has not come to an end. -/
def Plan.carryOutAt (t : Terminal μ) : Plan → μ (Option Nat)
  | print text => do
    t.print text
    return some 0
  | fail message => do
    t.log [.failed message]
    return some 1
  | run program options =>
    match options.tape? with
    | .error failure => t.conclude (.failed failure) 0 0
    | .ok tape => do
      t.log [.started program.size tape.size]
      let (ending, m) ← t.run options.timeLimit (.start program tape)
      t.conclude ending m.steps m.position

/-- Carries out a request and tells the exit code. -/
def Request.carryOutAt (t : Terminal μ) (r : Request) : μ (Option Nat) := do
  let (events, plan) := r.plan (← t.readFile r.source)
  t.log events
  plan.carryOutAt t

end Jobs

/-- What has happened at a terminal. -/
structure Record where
  /-- What is still to come from the live input. -/
  input : Feed
  output : LiveOutput
  events : List Log.Event

/-- Nothing has happened yet. -/
def Record.start (stdin : LiveInput) : Record := ⟨.live stdin, .untouched, []⟩

/-- A terminal where all is given beforehand. -/
def Terminal.recorded (root : Node) (s : Surroundings) : Terminal (StateM Record) where
  readFile := fun path record => (root.read path, record)
  print := fun text ⟨input, output, events⟩ =>
    let output := text.toUTF8.toList.foldl (fun output byte => output.put byte) output
    ((), ⟨input, output.flush, events⟩)
  log := fun later ⟨input, output, events⟩ => ((), ⟨input, output, events ++ later⟩)
  lament := fun _ record => ((), record)
  run := fun limit m ⟨input, output, events⟩ =>
    let host := (Console.joined .fed .stdout).host (s.clock.expired limit)
    let ((ending?, m), ((input, output), _)) := host.run s.budget m ((input, output), 0)
    ((ending?.getD .suspended, m), ⟨input, output, events⟩)

end Brainfuck.CommandLine
