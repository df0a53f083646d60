import Brainfuck.Command
import Brainfuck.Error
import Brainfuck.Opcode

/-!
# The tape

A row of bytes with a cursor on one of them. The number of cells is fixed when the tape is made.

Positions are 64-bit signed words: a position that does not fit into one is an overflow, a position
that fits but is not on the tape is reported as `OffTape`. Neither changes the tape.

* `position?_eq_ok_iff`: which moves stay on the tape.
* `scan` moves the cursor to the nearest zero cell one way, or to the last cell that way. The last
  cell is never looked at.
-/

namespace Brainfuck

/-- A row of bytes with a cursor on it. -/
structure Tape where
  cells : Array UInt8
  /-- The index of the cell under the cursor. -/
  cursor : Nat
  deriving DecidableEq, Repr

/-- The least position that fits into a word. -/
def leastPosition : Int := -9223372036854775808

/-- The greatest position that fits into a word. -/
def greatestPosition : Int := 9223372036854775807

namespace Tape

/-- A tape of `size` zero cells, with the cursor on the first. -/
def blank (size : Nat) : Tape := ⟨Array.replicate size 0, 0⟩

/-- A blank tape, if its last cell still has a position that fits into a word. -/
def new? (size : Nat) : Except Crash Tape :=
  if (size : Int) ≤ greatestPosition then .ok (blank size) else .error .capacity

theorem new?_eq_ok {size : Nat} (h : (size : Int) ≤ greatestPosition) :
    new? size = .ok (blank size) := if_pos h

theorem new?_eq_error {size : Nat} (h : greatestPosition < size) : new? size = .error .capacity :=
  if_neg (Int.not_le.mpr h)

/-- The number of cells. -/
def size (t : Tape) : Nat := t.cells.size

/-- The tape has no cells. -/
def isEmpty (t : Tape) : Bool := t.cells.isEmpty

/-- The cell under the cursor, if there is one. -/
def cell? (t : Tape) : Option UInt8 := t.cells[t.cursor]?

/-! ## The cell under the cursor -/

/-- The value of the cell under the cursor. -/
def get (t : Tape) : Except Crash UInt8 :=
  match t.cell? with
  | some value => .ok value
  | none => .error .indexOutOfRange

/-- The tape with another value in the cell under the cursor. -/
def store (value : UInt8) : Tape → Tape
  | ⟨cells, cursor⟩ => ⟨cells.setIfInBounds cursor value, cursor⟩

@[simp] theorem size_store (value : UInt8) (t : Tape) : (t.store value).size = t.size := by
  simp [store, size]

@[simp] theorem cursor_store (value : UInt8) (t : Tape) : (t.store value).cursor = t.cursor := rfl

/-- Puts `f value` in place of the value of the cell under the cursor. -/
def modify (f : UInt8 → UInt8) (t : Tape) : Except Crash Tape :=
  match t.get with
  | .ok value => .ok (t.store (f value))
  | .error crash => .error crash

/-- Stores a value in the cell under the cursor. -/
def set (value : UInt8) (t : Tape) : Except Crash Tape := t.modify fun _ => value

/-- Adds to the cell under the cursor, modulo 256. -/
def add (amount : UInt8) (t : Tape) : Except Crash Tape := t.modify (· + amount)

/-- Takes from the cell under the cursor, modulo 256. -/
def sub (amount : UInt8) (t : Tape) : Except Crash Tape := t.modify (· - amount)

/-! ## Cells elsewhere -/

/-- The index of the cell `offset` cells from the cursor. -/
def position? (t : Tape) (offset : Int) : Except (Failure OffTape) Nat :=
  let position : Int := t.cursor + offset
  if position < leastPosition ∨ greatestPosition < position then .error (.crashed .overflow)
  else if 0 ≤ position ∧ position < t.size then .ok position.toNat
  else .error (.reported ⟨position, t.size⟩)

/-- Moves the cursor by `offset` cells. -/
def moveBy (offset : Int) (t : Tape) : Except (Failure OffTape) Tape :=
  match t.position? offset with
  | .ok index => .ok { t with cursor := index }
  | .error failure => .error failure

/-- The value of the cell `offset` cells from the cursor. -/
def cellAt (offset : Int) (t : Tape) : Except (Failure OffTape) UInt8 := do
  let index ← t.position? offset
  match t.cells[index]? with
  | some value => .ok value
  | none => .error (.crashed .indexOutOfRange)

/-- Puts `f value` in place of the value of the cell `offset` cells from the cursor. -/
def modifyAt (offset : Int) (f : UInt8 → UInt8) (t : Tape) : Except (Failure OffTape) Tape :=
  match t.position? offset with
  | .ok index => .ok { t with cells := t.cells.modify index f }
  | .error failure => .error failure

/-- Stores a value in the cell `offset` cells from the cursor. -/
def putAt (offset : Int) (value : UInt8) (t : Tape) : Except (Failure OffTape) Tape :=
  t.modifyAt offset fun _ => value

/-- A move to a position that fits into a word stays on the tape exactly if there is a cell. -/
theorem position?_eq_ok_iff {t : Tape} {offset : Int} {index : Nat}
    (least : leastPosition ≤ t.cursor + offset) (greatest : t.cursor + offset ≤ greatestPosition) :
    t.position? offset = .ok index ↔ (index : Int) = t.cursor + offset ∧ index < t.size := by
  have fits : ¬(t.cursor + offset < leastPosition ∨ greatestPosition < t.cursor + offset) := by
    omega
  simp only [position?, if_neg fits]
  by_cases h : 0 ≤ (t.cursor : Int) + offset ∧ (t.cursor : Int) + offset < t.size
  · rw [if_pos h, Except.ok.injEq]
    omega
  · rw [if_neg h]
    simp only [reduceCtorEq, false_iff]
    omega

/-! ## Scans -/

/-- Where a scan to the left from `index` stops. -/
def leftStop (cells : Array UInt8) : Nat → Nat
  | 0 => 0
  | index + 1 => if cells.getD (index + 1) 0 = 0 then index + 1 else leftStop cells index

/-- Where a scan to the right from `index` stops. -/
def rightStop (cells : Array UInt8) (index : Nat) : Nat :=
  if index + 1 < cells.size then
    if cells.getD index 0 = 0 then index else rightStop cells (index + 1)
  else index
termination_by cells.size - index

theorem leftStop_le (cells : Array UInt8) (index : Nat) : leftStop cells index ≤ index := by
  fun_induction leftStop cells index with
  | case1 => exact Nat.le_refl 0
  | case2 => exact Nat.le_refl _
  | case3 index _ ih => exact Nat.le_succ_of_le ih

/-- A scan to the right does not leave the tape. -/
theorem rightStop_lt_size {cells : Array UInt8} {index : Nat} (h : index < cells.size) :
    rightStop cells index < cells.size := by
  fun_induction rightStop cells index with
  | case1 => exact h
  | case2 _ inside _ ih => exact ih inside
  | case3 => exact h

/-- Moves the cursor the given way until it is on a zero cell or on the last cell that way. -/
def scan (toward : Direction) : Tape → Tape
  | ⟨cells, cursor⟩ =>
    match toward with
    | .left => ⟨cells, leftStop cells cursor⟩
    | .right => ⟨cells, rightStop cells cursor⟩

/-! ## Spreading a value over several cells -/

/-- Adds multiples of `value` to the targets in order, up to the first that is not on the tape. What
was added before that stays. -/
def spread (value : UInt8) : List Target → Tape → Except (Failure OffTape) Unit × Tape
  | [], t => (.ok (), t)
  | ⟨offset, factor⟩ :: rest, t =>
    match t.position? offset with
    | .ok index =>
      spread value rest
        { t with cells := t.cells.modify index (· + value * UInt8.ofNat factor) }
    | .error failure => (.error failure, t)

end Tape

end Brainfuck
