import Brainfuck.Tape

/-!
# Operations on a tape

All that can be done to a tape, as data, so that one can speak of any sequence of operations.

An operation that ends badly leaves the tape as it was.
-/

namespace Brainfuck.Tape

/-- Something done to a tape. -/
inductive Operation
  | moveBy (offset : Int)
  | get
  | set (value : UInt8)
  | add (amount : UInt8)
  | sub (amount : UInt8)
  | scan (toward : Direction)
  | cellAt (offset : Int)
  | putAt (offset : Int) (value : UInt8)
  deriving DecidableEq, Repr

/-- How far from the cursor the operation looks for a cell, if it tells a distance. -/
def Operation.displacement? : Operation → Option Int
  | moveBy offset | cellAt offset | putAt offset _ => some offset
  | get | set _ | add _ | sub _ | scan _ => none

/-- What an operation that went well says. -/
inductive Answer
  | done
  | value (byte : UInt8)
  deriving DecidableEq, Repr

/-- The changed tape, or the tape as it was. -/
def changed (t : Tape) :
    Except (Failure OffTape) Tape → Except (Failure OffTape) Answer × Tape
  | .ok t' => (.ok .done, t')
  | .error failure => (.error failure, t)

/-- The value found on a tape. -/
def found (t : Tape) :
    Except (Failure OffTape) UInt8 → Except (Failure OffTape) Answer × Tape
  | .ok byte => (.ok (.value byte), t)
  | .error failure => (.error failure, t)

/-- Performs an operation. -/
def perform (t : Tape) : Operation → Except (Failure OffTape) Answer × Tape
  | .moveBy offset => changed t (t.moveBy offset)
  | .get => found t (t.get.mapError .crashed)
  | .set value => changed t ((t.set value).mapError .crashed)
  | .add amount => changed t ((t.add amount).mapError .crashed)
  | .sub amount => changed t ((t.sub amount).mapError .crashed)
  | .scan toward => (.ok .done, t.scan toward)
  | .cellAt offset => found t (t.cellAt offset)
  | .putAt offset value => changed t (t.putAt offset value)

/-- The tape after a sequence of operations, whether they went well or not. -/
def after (operations : List Operation) (t : Tape) : Tape :=
  operations.foldl (fun t operation => (t.perform operation).2) t

/-- What the operations of a sequence answer. -/
def answers : List Operation → Tape → List (Except (Failure OffTape) Answer)
  | [], _ => []
  | operation :: rest, t => (t.perform operation).1 :: answers rest (t.perform operation).2

end Brainfuck.Tape
