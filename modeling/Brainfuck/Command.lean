/-!
# Commands

The eight command characters of the language, and the two directions in which its cursor moves.
Every byte that is not one of the eight symbols is a comment.

`ofByte?_eq_some_iff` says that reading a byte undoes writing a symbol, and nothing else is read.
`reflect` exchanges the two directions; it is an involution.
-/

namespace Brainfuck

/-- One of the two ways along the tape. -/
inductive Direction
  | left
  | right
  deriving DecidableEq, Repr, Inhabited

namespace Direction

/-- The other way along the tape. -/
def opposite : Direction → Direction
  | left => right
  | right => left

/-- What one move this way adds to the cursor. -/
def unit : Direction → Int
  | left => -1
  | right => 1

@[simp] theorem opposite_opposite (d : Direction) : d.opposite.opposite = d := by
  cases d <;> rfl

theorem eq_or_eq_opposite (d e : Direction) : d = e ∨ d = e.opposite := by
  cases d <;> cases e <;> simp [opposite]

@[simp] theorem unit_opposite (d : Direction) : d.opposite.unit = -d.unit := by
  cases d <;> rfl

end Direction

/-- A command of the language. -/
inductive Command
  /-- Move the cursor by one cell. -/
  | move (toward : Direction)
  /-- Add one to the cell, modulo 256. -/
  | increment
  /-- Take one from the cell, modulo 256. -/
  | decrement
  /-- Skip past the matching end of the loop if the cell is zero. -/
  | beginLoop
  /-- Go back behind the matching start of the loop if the cell is not zero. -/
  | endLoop
  /-- Read one byte into the cell. -/
  | read
  /-- Write the cell as one byte. -/
  | write
  deriving DecidableEq, Repr, Inhabited

namespace Command

/-- The character that stands for the command in a source text. -/
def symbol : Command → Char
  | move .right => '>'
  | move .left => '<'
  | increment => '+'
  | decrement => '-'
  | beginLoop => '['
  | endLoop => ']'
  | read => ','
  | write => '.'

/-- The command whose symbol the byte is, if there is one. -/
def ofByte? (byte : UInt8) : Option Command :=
  if byte = 62 then some (move .right)
  else if byte = 60 then some (move .left)
  else if byte = 43 then some increment
  else if byte = 45 then some decrement
  else if byte = 91 then some beginLoop
  else if byte = 93 then some endLoop
  else if byte = 44 then some read
  else if byte = 46 then some write
  else none

theorem ofByte?_symbol (c : Command) : ofByte? c.symbol.toUInt8 = some c := by
  rcases c with ⟨_ | _⟩ | _ | _ | _ | _ | _ | _ <;> rfl

theorem ofByte?_eq_some_iff {byte : UInt8} {c : Command} :
    ofByte? byte = some c ↔ byte = c.symbol.toUInt8 := by
  refine ⟨fun h => ?_, fun h => h ▸ ofByte?_symbol c⟩
  unfold ofByte? at h
  repeat' split at h
  all_goals cases h
  all_goals assumption

/-- The same command for a reader who sees the tape from the other side. -/
def reflect : Command → Command
  | move d => move d.opposite
  | c => c

@[simp] theorem reflect_reflect (c : Command) : c.reflect.reflect = c := by
  cases c <;> simp [reflect]

end Command

end Brainfuck
