import Brainfuck.Tape

/-!
# Options of a run

How long the tape is, how long a run may take, where its bytes come from and where they go.
-/

namespace Brainfuck

/-- Where the bytes of a run come from. -/
inductive Input
  /-- The live input of the process. -/
  | stdin
  /-- Fixed bytes, front to back. -/
  | bytes (content : List UInt8)
  /-- Someone who answers question number `n` with a byte or with none. -/
  | callback (answer : Nat → Option UInt8)

/-- Where the bytes of a run go. -/
inductive Output
  /-- The live output of the process. -/
  | stdout
  /-- A buffer that is returned at the end of the run. -/
  | buffer
  /-- Someone who is told each byte. -/
  | callback
  deriving DecidableEq, Repr

/-- The choice in words. -/
def Input.text : Input → String
  | stdin => "Stdin"
  | bytes content => "Bytes([" ++ ", ".intercalate (content.map fun byte => toString byte) ++ "])"
  | callback _ => "Callback(..)"

/-- The choice in words. -/
def Output.text : Output → String
  | stdout => "Stdout"
  | buffer => "Buffer"
  | callback => "Callback(..)"

/-- The options of a run. -/
structure Options where
  /-- The number of cells. -/
  tapeSize : Nat
  /-- How long the run may take, in nanoseconds. -/
  timeLimit : Option Nat
  input : Input
  output : Output

namespace Options

/-- A tape of 30000 cells, as much time as it takes, and the live input and output. -/
def standard : Options := ⟨30000, none, .stdin, .stdout⟩

/-- What is wrong with the options, if anything is. The tape is looked at first. -/
def invalid? (o : Options) : Option InvalidOption :=
  if o.tapeSize = 0 then some .emptyTape
  else if o.timeLimit = some 0 then some .noTime
  else none

theorem invalid?_eq_none_iff {o : Options} :
    o.invalid? = none ↔ 0 < o.tapeSize ∧ o.timeLimit ≠ some 0 := by
  by_cases empty : o.tapeSize = 0
  · simp [invalid?, empty]
  · by_cases noTime : o.timeLimit = some 0
    · simp [invalid?, empty, noTime]
    · simp [invalid?, empty, noTime, Nat.pos_of_ne_zero empty]

/-- The tape of a run. What is wrong with the options is reported before the tape is made, and there
may be no room for it. -/
def tape? (o : Options) : Except (Failure Error) Tape :=
  match o.invalid? with
  | some cause => .error (.reported (.invalidOption cause))
  | none => (Tape.new? o.tapeSize).mapError .crashed

theorem tape?_eq_ok {o : Options} (hvalid : o.invalid? = none)
    (hroom : (o.tapeSize : Int) ≤ greatestPosition) : o.tape? = .ok (.blank o.tapeSize) := by
  rw [tape?, hvalid]
  dsimp only
  rw [Tape.new?_eq_ok hroom]
  rfl

theorem tape?_eq_capacity {o : Options} (hvalid : o.invalid? = none)
    (hsize : greatestPosition < o.tapeSize) : o.tape? = .error (.crashed .capacity) := by
  rw [tape?, hvalid]
  dsimp only
  rw [Tape.new?_eq_error hsize]
  rfl

end Options

end Brainfuck
