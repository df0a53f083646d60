import Brainfuck.Console
import Brainfuck.Machine

/-!
# Sessions

A session is a machine at a console. `Session.dispatch` executes one opcode and serves its read or
write; `Session.run` goes on until the program is finished, something fails, or time is up. The
clock is only looked at between two opcodes, and for the first time behind the first of them.

A run is given a budget of dispatches, since a program need not come to an end.
-/

namespace Brainfuck

/-- A machine at a console whose state is `device`. -/
structure Session (σ : Type) where
  machine : Machine
  device : σ

/-- How a run ended. -/
inductive Ending
  /-- No opcode is left. -/
  | completed
  /-- The time limit passed. -/
  | timedOut
  | failed (failure : Failure Error)
  /-- The budget is used up. -/
  | suspended
  deriving DecidableEq, Repr

/-- What can be seen of a machine between two opcodes. -/
structure Snapshot where
  position : Nat
  steps : Nat
  cursor : Nat
  cell : Option UInt8
  finished : Bool
  deriving DecidableEq, Repr

/-- What can be seen of the machine. -/
def Machine.snapshot (m : Machine) : Snapshot :=
  ⟨m.position, m.steps, m.tape.cursor, m.tape.cell?, m.finished⟩

namespace Session

variable {σ : Type}

/-- Executes one opcode. If there is none left, nothing happens. -/
def dispatch (io : Console σ) : Session σ → Except (Failure Error) Unit × Session σ
  | ⟨machine, device⟩ =>
    match machine.turn with
    | (.halted, machine) => (.ok (), ⟨machine, device⟩)
    | (.moved, machine) => (.ok (), ⟨machine, device⟩)
    | (.failed failure, machine) => (.error failure, ⟨machine, device⟩)
    | (.asks, machine) =>
      match io.read device with
      | (.ok byte, device) => (.ok (), ⟨machine.receive byte, device⟩)
      | (.error e, device) => (.error (.reported (.io e)), ⟨machine, device⟩)
    | (.offers byte, machine) =>
      match io.write byte device with
      | (.ok (), device) => (.ok (), ⟨machine.advance, device⟩)
      | (.error e, device) => (.error (.reported (.io e)), ⟨machine, device⟩)

/-- Goes on with a run in which `count` opcodes have been dispatched. -/
def runFrom (io : Console σ) (expired : Nat → Bool) (count : Nat) :
    Nat → Session σ → Ending × Session σ
  | 0, s => if s.machine.finished then (.completed, s) else (.suspended, s)
  | budget + 1, s =>
    if s.machine.finished then (.completed, s)
    else
      match s.dispatch io with
      | (.error failure, s) => (.failed failure, s)
      | (.ok (), s) =>
        if expired count then (.timedOut, s) else runFrom io expired (count + 1) budget s

/-- Runs the machine. `expired k` tells whether time is up after dispatch number `k` of this run,
counted from zero. -/
def run (io : Console σ) (expired : Nat → Bool) (budget : Nat) (s : Session σ) :
    Ending × Session σ :=
  runFrom io expired 0 budget s

/-- The session after `n` dispatches, if none of them failed. -/
def after (io : Console σ) : Nat → Session σ → Except (Failure Error × Session σ) (Session σ)
  | 0, s => .ok s
  | n + 1, s =>
    match s.dispatch io with
    | (.ok (), s) => after io n s
    | (.error failure, s) => .error (failure, s)

/-- Dispatching `m` times and then `n` times is dispatching `m + n` times. -/
theorem after_add (io : Console σ) (m n : Nat) (s : Session σ) :
    s.after io (m + n) = s.after io m >>= fun s => s.after io n := by
  induction m generalizing s with
  | zero =>
    rw [Nat.zero_add]
    rfl
  | succ m ih =>
    rw [Nat.succ_add, after, after]
    split
    · exact ih _
    · rfl

/-- A state on the way and, if the dispatch that led there failed, how. -/
abbrev Frame := Snapshot × Option (Failure Error)

/-- Up to `n` dispatches, stopping after a failure or at the end of the program. The frames come
behind `seen`, which holds earlier ones in reverse. -/
def traceFrom (io : Console σ) (seen : List Frame) : Nat → Session σ → List Frame × Session σ
  | 0, s => (seen.reverse, s)
  | n + 1, s =>
    match s.dispatch io with
    | (.error failure, s) => (((s.machine.snapshot, some failure) :: seen).reverse, s)
    | (.ok (), s) =>
      let seen := (s.machine.snapshot, none) :: seen
      if s.machine.finished then (seen.reverse, s) else traceFrom io seen n s

/-- The state after each of up to `n` dispatches. -/
def trace (io : Console σ) (n : Nat) (s : Session σ) : List Frame × Session σ :=
  traceFrom io [] n s

end Session

end Brainfuck
