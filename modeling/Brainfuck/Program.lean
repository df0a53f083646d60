import Brainfuck.Error
import Brainfuck.Opcode

/-!
# Programs

A compiled program is a row of opcodes, numbered from zero. Its listing shows one opcode a line.
-/

namespace Brainfuck

/-- A compiled program. -/
structure Program where
  code : Array Opcode
  deriving DecidableEq, Repr

namespace Program

/-- The number of opcodes. -/
def size (p : Program) : Nat := p.code.size

/-- The program has no opcodes. -/
def isEmpty (p : Program) : Bool := p.code.isEmpty

/-- The opcode at the index, if there is one. -/
def get? (p : Program) (index : Nat) : Option Opcode := p.code[index]?

/-- The opcode at an index that is taken to be in range. -/
def opcodeAt (p : Program) (index : Nat) : Except Crash Opcode :=
  match p.get? index with
  | some opcode => .ok opcode
  | none => .error .indexOutOfRange

/-- The number with blanks in front, so that it takes up at least six columns. -/
def column (index : Nat) : String :=
  let digits := toString index
  "".pushn ' ' (6 - digits.length) ++ digits

/-- One line of a listing. -/
def line (index : Nat) (opcode : Opcode) : String :=
  column index ++ "  " ++ opcode.text ++ "\n"

/-- The opcodes as text, one a line. -/
def listing (p : Program) : String :=
  String.join (p.code.toList.zipIdx.map fun (opcode, index) => line index opcode)

theorem get?_eq_none_iff {p : Program} {index : Nat} : p.get? index = none ↔ p.size ≤ index := by
  simp [get?, size]

end Program

end Brainfuck
