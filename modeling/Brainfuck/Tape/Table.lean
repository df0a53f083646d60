import Brainfuck.Tape.Operation

/-!
# Tapes as tables

The meaning of the operations without any row of cells. A table has a byte for every index below its
size, and a cursor, which may be any number: every operation says for itself which index it is about,
and fails if there is none. Bytes are numbers modulo 256, and a scan looks for an index with a
property instead of going there step by step. This is what tapes are compared with.
-/

namespace Brainfuck.Tape

/-- A byte for every index below `size`, and a cursor. -/
structure Table (size : Nat) where
  byteAt : Fin size → UInt8
  cursor : Nat

/-- The first item with the property, or else the last of all. Without items it is `default`. -/
def firstOrLast (holds : Nat → Bool) (items : List Nat) (default : Nat) : Nat :=
  (items.find? holds).getD (items.getLastD default)

theorem firstOrLast_cons (holds : Nat → Bool) (item : Nat) (items : List Nat) (default : Nat) :
    firstOrLast holds (item :: items) default =
      if holds item then item else firstOrLast holds items item := by
  unfold firstOrLast
  rw [List.find?_cons, List.getLastD_cons]
  cases holds item with
  | true => rfl
  | false => rfl

namespace Table

variable {size : Nat}

/-- The table in which all bytes are zero. -/
def blank (size : Nat) : Table size := ⟨fun _ => 0, 0⟩

/-- The byte at the index is zero. There is such an index. -/
def isZero (m : Table size) (index : Nat) : Bool :=
  if h : index < size then m.byteAt ⟨index, h⟩ == 0 else false

/-- The table with its cursor elsewhere. -/
def moveTo (index : Nat) (m : Table size) : Table size := { m with cursor := index }

/-- The table with a number, modulo 256, at one index. All other indices keep their bytes. -/
def put (index : Fin size) (number : Nat) (m : Table size) : Table size :=
  { m with byteAt := fun i => if i = index then UInt8.ofNat (number % 256) else m.byteAt i }

/-! ## Indices -/

/-- The index `offset` further on than the cursor, if that is one. -/
def index? (m : Table size) (offset : Int) : Option (Fin size) :=
  if h : 0 ≤ m.cursor + offset ∧ m.cursor + offset < size then
    some ⟨(m.cursor + offset).toNat, by omega⟩
  else none

/-- The indices from the cursor on that way, in the order in which one comes to them. -/
def ahead (m : Table size) : Direction → List Nat
  | .left => (List.range (m.cursor + 1)).reverse
  | .right => List.range' m.cursor (size - m.cursor)

/-- Where a scan ends: at the first zero that way, or else at the last index that way. -/
def stop (d : Direction) (m : Table size) : Nat := firstOrLast m.isZero (m.ahead d) m.cursor

/-! ## Operations -/

/-- What is done with an index, or the failure if there is no index. -/
def attempt (m : Table size) (failure : Failure OffTape)
    (act : Fin size → Answer × Table size) :
    Option (Fin size) → Except (Failure OffTape) Answer × Table size
  | some index => (.ok (act index).1, (act index).2)
  | none => (.error failure, m)

/-- Does something with the index at the cursor. -/
def here (m : Table size) (act : Fin size → Answer × Table size) :
    Except (Failure OffTape) Answer × Table size :=
  m.attempt (.crashed .indexOutOfRange) act (m.index? 0)

/-- Does something with the index `offset` further on. -/
def there (m : Table size) (offset : Int) (act : Fin size → Answer × Table size) :
    Except (Failure OffTape) Answer × Table size :=
  m.attempt (.reported ⟨m.cursor + offset, size⟩) act (m.index? offset)

/-- Performs an operation. -/
def perform (m : Table size) : Operation → Except (Failure OffTape) Answer × Table size
  | .get => m.here fun index => (.value (m.byteAt index), m)
  | .set value => m.here fun index => (.done, m.put index value.toNat)
  | .add amount =>
    m.here fun index => (.done, m.put index ((m.byteAt index).toNat + amount.toNat))
  | .sub amount =>
    m.here fun index => (.done, m.put index ((m.byteAt index).toNat + (256 - amount.toNat)))
  | .scan toward => (.ok .done, m.moveTo (m.stop toward))
  | .moveBy offset => m.there offset fun index => (.done, m.moveTo index)
  | .cellAt offset => m.there offset fun index => (.value (m.byteAt index), m)
  | .putAt offset value => m.there offset fun index => (.done, m.put index value.toNat)

/-- The table after a sequence of operations, whether they went well or not. -/
def after (operations : List Operation) (m : Table size) : Table size :=
  operations.foldl (fun m operation => (m.perform operation).2) m

/-- What the operations of a sequence answer. -/
def answers : List Operation → Table size → List (Except (Failure OffTape) Answer)
  | [], _ => []
  | operation :: rest, m => (m.perform operation).1 :: answers rest (m.perform operation).2

example : ((blank 3).after [.sub 1, .moveBy 1, .add 9, .scan .right, .moveBy 1]).cursor = 2
    ∧ ((blank 3).after [.sub 1, .moveBy 1, .add 9]).byteAt 0 = 255 := by decide

end Table

end Brainfuck.Tape
