import Brainfuck.Console
import Brainfuck.Tape
import Brainfuck.Token

/-!
# The plain interpreter

The meaning of a text without any compiling: its commands are executed one at a time, and a bracket
looks for its partner by counting. This is what compiled programs are compared with.

The cursor is any integer. Only a command that uses the cell under it needs the cell to be on the
tape; moves do not. The tape's own cursor stays on the cell that was used last.
-/

namespace Brainfuck.Plain

/-! ## Partners of brackets -/

/-- How many commands come before the one that brings a nesting of `depth` below zero, where
`deeper` adds to the nesting and `shallower` takes from it. -/
def unnest? (deeper shallower : Command) (depth : Nat) : List Command → Option Nat
  | [] => none
  | c :: rest =>
    if c = shallower then
      match depth with
      | 0 => some 0
      | depth + 1 => (unnest? deeper shallower depth rest).map (· + 1)
    else if c = deeper then (unnest? deeper shallower (depth + 1) rest).map (· + 1)
    else (unnest? deeper shallower depth rest).map (· + 1)

/-- The index of the end of the loop that starts at `start`. -/
def loopEnd? (commands : List Command) (start : Nat) : Option Nat :=
  (unnest? .beginLoop .endLoop 0 (commands.drop (start + 1))).map (start + 1 + ·)

/-- The index of the start of the loop that ends at `stop`. -/
def loopStart? (commands : List Command) (stop : Nat) : Option Nat :=
  (unnest? .endLoop .beginLoop 0 (commands.take stop).reverse).map (stop - 1 - ·)

example : loopEnd? [.beginLoop, .beginLoop, .endLoop, .write, .endLoop] 0 = some 4
    ∧ loopStart? [.beginLoop, .beginLoop, .endLoop, .write, .endLoop] 4 = some 0 := by decide

/-! ## Execution -/

/-- A text on its way. -/
structure State (σ : Type) where
  /-- The index of the next command. -/
  position : Nat
  cursor : Int
  /-- The cells; the tape's own cursor is on the cell that was used last. -/
  tape : Tape
  device : σ

/-- What became of a command. -/
inductive Result (σ : Type)
  /-- The command has been executed. -/
  | next (s : State σ)
  /-- There is no command left. -/
  | finished (s : State σ)
  /-- The cell is not on the tape. -/
  | offTape (s : State σ)
  /-- Reading or writing failed. -/
  | failed (e : DeviceError) (s : State σ)
  /-- A bracket has no partner. -/
  | unmatched (s : State σ)

namespace State

variable {σ : Type}

/-- The start of a text on a tape. -/
def start (tape : Tape) (device : σ) : State σ := ⟨0, tape.cursor, tape, device⟩

/-- The cell under the cursor, if it is on the tape. -/
def cell? (s : State σ) : Option UInt8 :=
  if 0 ≤ s.cursor then s.tape.cells[s.cursor.toNat]? else none

/-- The next command is the one at `position`. -/
def goTo (position : Nat) (s : State σ) : State σ := { s with position }

/-- The command has been executed, and the one behind it is next. -/
def advance (s : State σ) : State σ := s.goTo (s.position + 1)

/-- The cursor has been moved by one cell, and the command behind the move is next. -/
def move (d : Direction) (s : State σ) : State σ := { s.advance with cursor := s.cursor + d.unit }

/-- The cell under the cursor is the one used last. -/
def touch (s : State σ) : State σ := { s with tape := { s.tape with cursor := s.cursor.toNat } }

/-- Another value in the cell used last. -/
def store (value : UInt8) (s : State σ) : State σ := { s with tape := s.tape.store value }

/-- Another state of the console. -/
def withDevice (device : σ) (s : State σ) : State σ := { s with device }

end State

variable {σ : Type}

/-- Goes behind the bracket at the given index. -/
def jump (s : State σ) : Option Nat → Result σ
  | some partner => .next (s.goTo (partner + 1))
  | none => .unmatched s

/-- Executes a command at a cell whose value is `value`. -/
def execute (io : Console σ) (commands : List Command) (c : Command) (value : UInt8) (s : State σ) :
    Result σ :=
  match c with
  | .move d => .next (s.move d)
  | .increment => .next (s.store (value + 1)).advance
  | .decrement => .next (s.store (value - 1)).advance
  | .beginLoop => if value = 0 then jump s (loopEnd? commands s.position) else .next s.advance
  | .endLoop => if value = 0 then .next s.advance else jump s (loopStart? commands s.position)
  | .read =>
    match io.read s.device with
    | (.ok none, device) => .next (s.withDevice device).advance
    | (.ok (some byte), device) =>
      if byte = 0 then .next (s.withDevice device).advance
      else .next ((s.withDevice device).store byte).advance
    | (.error e, device) => .failed e (s.withDevice device)
  | .write =>
    match io.write value s.device with
    | (.ok (), device) => .next (s.withDevice device).advance
    | (.error e, device) => .failed e (s.withDevice device)

/-- Executes the next command. A move does not look at the cell under the cursor. -/
def step (io : Console σ) (commands : List Command) (s : State σ) : Result σ :=
  match commands[s.position]? with
  | none => .finished s
  | some (.move d) => .next (s.move d)
  | some c =>
    match s.cell? with
    | none => .offTape s
    | some value => execute io commands c value s.touch

/-- Executes `n` commands, or as many as it takes to stop. -/
def after (io : Console σ) (commands : List Command) : Nat → State σ → Result σ
  | 0, s => .next s
  | n + 1, s =>
    match step io commands s with
    | .next s => after io commands n s
    | stopped => stopped

/-- The commands of a source text. -/
def commandsOf (text : String) : List Command := (Lexer.ofText text).tokens.map (·.command)

end Brainfuck.Plain
