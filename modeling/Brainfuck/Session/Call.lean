import Brainfuck.Session

/-!
# Calls on a session

All that can be asked of a session, as data, so that one can speak of any sequence of calls: to
dispatch a single opcode, or to run the program until it ends or time is up. Each run has a clock of
its own.

* `Session.afterCalls` makes calls one after the other, whatever they answer.
* `Session.inSlices` makes calls until one of them ends the program or fails.
-/

namespace Brainfuck

/-- Something asked of a session. -/
inductive Call
  /-- To dispatch one opcode. -/
  | dispatch
  /-- To run the program. `expired k` tells whether time is up after dispatch number `k` of this
  run, counted from zero. -/
  | run (expired : Nat → Bool) (budget : Nat)

/-- Nothing is left to be done: the program has come to its end, or something has failed. -/
def Ending.isOver : Ending → Bool
  | completed | failed _ => true
  | timedOut | suspended => false

namespace Session

variable {σ : Type}

/-- Makes a call. A dispatch that goes well does not tell whether opcodes are left, so it leaves the
program suspended. -/
def call (io : Console σ) (s : Session σ) : Call → Ending × Session σ
  | .dispatch =>
    match s.dispatch io with
    | (.ok (), s) => (.suspended, s)
    | (.error failure, s) => (.failed failure, s)
  | .run expired budget => s.run io expired budget

/-- The session after a sequence of calls, whatever they answer. -/
def afterCalls (io : Console σ) (calls : List Call) (s : Session σ) : Session σ :=
  calls.foldl (fun s c => (s.call io c).2) s

/-- Makes calls until one of them answers that the program has come to its end or that something has
failed. If none does, the program is suspended. -/
def inSlices (io : Console σ) : List Call → Session σ → Ending × Session σ
  | [], s => (.suspended, s)
  | c :: later, s =>
    match s.call io c with
    | (ending, s) => if ending.isOver then (ending, s) else inSlices io later s

/-- How many opcodes are executed by the rest of a run in which `count` opcodes have been
dispatched. -/
def executedFrom (io : Console σ) (expired : Nat → Bool) (count : Nat) : Nat → Session σ → Nat
  | 0, _ => 0
  | budget + 1, s =>
    if s.machine.finished then 0
    else
      match s.dispatch io with
      | (.error _, _) => 0
      | (.ok (), s) =>
        if expired count then 1 else executedFrom io expired (count + 1) budget s + 1

/-- How many opcodes a call executes. A dispatch executes what a run of one does. -/
def executedBy (io : Console σ) (s : Session σ) : Call → Nat
  | .dispatch => executedFrom io (fun _ => false) 0 1 s
  | .run expired budget => executedFrom io expired 0 budget s

/-- How many opcodes a sequence of calls executes. -/
def executed (io : Console σ) : List Call → Session σ → Nat
  | [], _ => 0
  | c :: later, s => s.executedBy io c + executed io later (s.call io c).2

end Session

end Brainfuck
