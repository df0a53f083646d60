import Brainfuck.Program.Pass

/-!
# Positions in words

`Tape.position?` adds the cursor and an offset as numbers of any size, and looks at the sum. Here
both are words, the cursor an unsigned one and the offset a signed one, and they are added twice: as
an unsigned index, which may be too small or too great to be one, and as a signed position for the
report. The second sum must not overflow, whether there is anything to report or not.
-/

namespace Brainfuck

/-- The index `offset` further on than `index`, if it fits into an unsigned word. -/
def advance? (index : Nat) (offset : Int) : Option Nat :=
  let sum : Int := index + offset
  if 0 ≤ sum ∧ sum ≤ Text.greatestWord then some sum.toNat else none

example : advance? 2 (-2) = some 0 ∧ advance? 2 (-3) = none
    ∧ advance? 18446744073709551615 1 = none := by decide

namespace Tape

/-- The report of the position `offset` cells from `cursor`. -/
def report (cursor offset : Int) (size : Nat) : Except Crash OffTape := do
  let position ← inPosition (cursor + offset)
  return ⟨position, size⟩

/-- The index, or the report if there is none. The report is made first, whether there is an index
or not. -/
def orReport (index? : Option Nat) : Except Crash OffTape → Except (Failure OffTape) Nat
  | .error crash => .error (.crashed crash)
  | .ok report =>
    match index? with
    | some index => .ok index
    | none => .error (.reported report)

/-- The index of the cell `offset` cells from the cursor. -/
def positionInWords? (t : Tape) (offset : Int) : Except (Failure OffTape) Nat :=
  orReport ((advance? t.cursor offset).filter (· < t.size))
    (report (Pass.signed t.cursor) offset t.size)

end Tape

end Brainfuck
