import Brainfuck.Program
import Brainfuck.Tape

/-!
# The machine

A machine runs a program on a tape. It does not read or write bytes itself: a `Turn` says what
became of dispatching one opcode, and where the opcode asks for a byte or offers one, the machine
waits, with its cursor moved already, until it is told how that went.

* `Machine.turn` dispatches one opcode.
* `Machine.receive` and `Machine.advance` finish the turn of an opcode that read or wrote.

The cursor is moved before anything else happens. If the rest of the opcode fails, it stays moved.
-/

namespace Brainfuck

/-- A program on its way. -/
structure Machine where
  program : Program
  tape : Tape
  /-- The index of the next opcode. -/
  position : Nat
  /-- How many opcodes have been executed. -/
  steps : Nat
  deriving DecidableEq, Repr

/-- What became of dispatching one opcode. -/
inductive Turn
  /-- There is no opcode left. -/
  | halted
  /-- The opcode has been executed. -/
  | moved
  /-- The opcode reads a byte, which it has not been given yet. -/
  | asks
  /-- The opcode writes a byte, which has not been taken yet. -/
  | offers (byte : UInt8)
  | failed (failure : Failure Error)
  deriving DecidableEq, Repr

namespace Machine

/-- A machine at the start of a program. -/
def start (program : Program) (tape : Tape) : Machine := ⟨program, tape, 0, 0⟩

/-- There is no opcode left. -/
def finished (m : Machine) : Bool := m.program.size ≤ m.position

/-- An opcode has been executed, and the one at `position` is next. -/
def goTo (position : Nat) : Machine → Machine
  | ⟨program, tape, _, steps⟩ => ⟨program, tape, position, steps + 1⟩

/-- An opcode has been executed, and the one behind it is next. -/
def advance (m : Machine) : Machine := m.goTo (m.position + 1)

/-- The machine with another value in the cell under its cursor. -/
def store (value : UInt8) : Machine → Machine
  | ⟨program, tape, position, steps⟩ => ⟨program, tape.store value, position, steps⟩

/-- Finishes the turn of a reading opcode. The byte zero and no byte both leave the cell alone. -/
def receive (byte : Option UInt8) (m : Machine) : Machine :=
  match byte with
  | none => m.advance
  | some value => if value = 0 then m.advance else (m.store value).advance

/-- Adds multiples of `value`, the value of the cell, to the targets and clears the cell. -/
def copy (value : UInt8) (targets : List Target) : Machine → Turn × Machine
  | ⟨program, tape, position, steps⟩ =>
    match tape.spread value targets with
    | (.ok (), tape) => (.moved, (Machine.mk program (tape.store 0) position steps).advance)
    | (.error failure, tape) => (.failed (failure.map .offTape), ⟨program, tape, position, steps⟩)

/-- Moves the cursor to where a scan of the tape ends. -/
def scan (toward : Direction) : Machine → Machine
  | ⟨program, tape, position, steps⟩ => ⟨program, tape.scan toward, position, steps⟩

/-- Performs an effect at the cursor, where the value of the cell is `value`. -/
def perform (effect : Effect) (value : UInt8) (m : Machine) : Turn × Machine :=
  match effect with
  | .add count => (.moved, (m.store (value + UInt8.ofNat count)).advance)
  | .sub count => (.moved, (m.store (value - UInt8.ofNat count)).advance)
  | .clear => (.moved, (m.store 0).advance)
  | .copy targets => if value = 0 then (.moved, m.advance) else m.copy value targets
  | .scan toward => (.moved, (m.scan toward).advance)
  | .read => (.asks, m)
  | .write => (.offers value, m)

/-- Acts at the cursor, where the value of the cell is `value`. -/
def act (action : Action) (value : UInt8) (m : Machine) : Turn × Machine :=
  match action with
  | .perform effect => m.perform effect value
  | .beginLoop partner => (.moved, if value = 0 then m.goTo (partner + 1) else m.advance)
  | .endLoop partner => (.moved, if value = 0 then m.advance else m.goTo (partner + 1))

/-- Dispatches one opcode. -/
def turn : Machine → Turn × Machine
  | ⟨program, tape, position, steps⟩ =>
    match program.get? position with
    | none => (.halted, ⟨program, tape, position, steps⟩)
    | some ⟨move, action⟩ =>
      match tape.moveBy move with
      | .error failure => (.failed (failure.map .offTape), ⟨program, tape, position, steps⟩)
      | .ok tape =>
        match tape.get with
        | .error crash => (.failed (.crashed crash), ⟨program, tape, position, steps⟩)
        | .ok value => act action value ⟨program, tape, position, steps⟩

end Machine

end Brainfuck
