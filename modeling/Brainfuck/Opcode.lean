import Brainfuck.Command

/-!
# Opcodes

The instructions of a compiled program. Each first moves the cursor, then acts: it either has an
effect on the cell under the cursor and those around it, or is one end of a loop and names the
other end, its partner.

`Opcode.text` is the form in which a listing shows an opcode.
-/

namespace Brainfuck

/-- One cell that a copying loop adds to. -/
structure Target where
  /-- Where the cell lies, counted from the copied cell. -/
  offset : Int
  /-- How often the copied value is added. -/
  factor : Nat
  deriving DecidableEq, Repr

/-- What an opcode does at the cursor. -/
inductive Effect
  /-- Add `count` to the cell, modulo 256. -/
  | add (count : Nat)
  /-- Take `count` from the cell, modulo 256. -/
  | sub (count : Nat)
  /-- Set the cell to zero. -/
  | clear
  /-- Add multiples of the cell to the targets, then set it to zero. -/
  | copy (targets : List Target)
  /-- Move the cursor until it is on a zero cell. -/
  | scan (toward : Direction)
  /-- Read one byte into the cell. -/
  | read
  /-- Write the cell as one byte. -/
  | write
  deriving DecidableEq, Repr

/-- An effect, or one end of a loop. -/
inductive Action
  | perform (effect : Effect)
  /-- Skip past the end of the loop, which stands at `partner`, if the cell is zero. -/
  | beginLoop (partner : Nat)
  /-- Go back behind the start of the loop, which stands at `partner`, if the cell is not zero. -/
  | endLoop (partner : Nat)
  deriving DecidableEq, Repr

/-- An instruction: a move of the cursor and what is done behind it. -/
structure Opcode where
  move : Int
  action : Action
  deriving DecidableEq, Repr

/-- The target as a listing shows it. -/
def Target.text (t : Target) : String := s!"{t.offset}: {t.factor}"

/-- The word for the effect in a listing. -/
def Effect.name : Effect → String
  | add _ => "add"
  | sub _ => "sub"
  | clear => "clear"
  | copy _ => "copy"
  | scan .left => "scanl"
  | scan .right => "scanr"
  | read => "input"
  | write => "output"

/-- What a listing shows of an effect behind its name and move. -/
def Effect.operand : Effect → String
  | add count | sub count => s!" {count}"
  | copy targets => " \x7b" ++ ", ".intercalate (targets.map Target.text) ++ "\x7d"
  | clear | scan _ | read | write => ""

/-- The word for the action in a listing. -/
def Action.name : Action → String
  | perform effect => effect.name
  | beginLoop _ => "open"
  | endLoop _ => "close"

/-- What a listing shows of an action behind its name and move. -/
def Action.operand : Action → String
  | perform effect => effect.operand
  | beginLoop partner | endLoop partner => s!" -> {partner}"

/-- The opcode as a listing shows it: what it does, its move, and its operand. -/
def Opcode.text (o : Opcode) : String := s!"{o.action.name} {o.move}{o.action.operand}"

example : Opcode.text ⟨1, .perform (.copy [⟨-2, 3⟩, ⟨1, 4⟩])⟩ = "copy 1 \x7b-2: 3, 1: 4\x7d" := by
  decide +kernel

example : Opcode.text ⟨-1, .beginLoop 4⟩ = "open -1 -> 4" := by decide +kernel

end Brainfuck
