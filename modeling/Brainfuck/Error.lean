import Brainfuck.Utf8

/-!
# Errors

What can go wrong, by cause, and the words in which each cause is reported.

An operation ends badly in one of two ways (`Failure`): it reports an error that its caller can
handle, or it crashes, which no caller can.
-/

namespace Brainfuck

/-- One of the two brackets of a loop. -/
inductive Bracket
  | opening
  | closing
  deriving DecidableEq, Repr

/-- The bracket as it stands in a source text. -/
def Bracket.symbol : Bracket → Char
  | opening => '['
  | closing => ']'

/-- A bracket of the source text has no partner. -/
structure UnmatchedBracket where
  bracket : Bracket
  /-- The byte offset of the bracket in the source text. -/
  offset : Nat
  deriving DecidableEq, Repr

def UnmatchedBracket.message (e : UnmatchedBracket) : String :=
  s!"unmatched '{e.bracket.symbol}' at offset {e.offset}"

/-- A cell was asked for that is not on the tape. -/
structure OffTape where
  /-- Where the cell would lie. -/
  position : Int
  /-- The number of cells on the tape. -/
  size : Nat
  deriving DecidableEq, Repr

def OffTape.message (e : OffTape) : String :=
  s!"cursor moved to {e.position}, outside of the tape range 0..{e.size}"

/-- An option has a value that no run can use. -/
inductive InvalidOption
  | emptyTape
  | noTime
  deriving DecidableEq, Repr

def InvalidOption.message : InvalidOption → String
  | emptyTape => "tape size must be positive"
  | noTime => "time limit must be positive"

/-- Reading or writing a byte failed, in the words of whoever was asked to. -/
structure DeviceError where
  message : String
  deriving DecidableEq, Repr

/-- Everything that can be reported between a source text and the end of its run. -/
inductive Error
  | unmatchedBracket (cause : UnmatchedBracket)
  | notText (cause : Utf8.Defect)
  | offTape (cause : OffTape)
  | invalidOption (cause : InvalidOption)
  | io (cause : DeviceError)
  deriving DecidableEq, Repr

namespace Error

/-- The kind of error, in front of its cause. -/
def heading : Error → String
  | unmatchedBracket _ => "syntax error"
  | notText _ => "source is not valid text"
  | offTape _ => "memory error"
  | invalidOption _ => "invalid options"
  | io _ => "i/o error"

/-- The words for the cause alone. -/
def cause : Error → String
  | unmatchedBracket e => e.message
  | notText e => e.message
  | offTape e => e.message
  | invalidOption e => e.message
  | io e => e.message

def message (e : Error) : String := s!"{e.heading}: {e.cause}"

/-- The message followed by the cause once more where the cause is an error in its own right. -/
def chain (e : Error) : String :=
  match e with
  | invalidOption _ => e.message
  | _ => s!"{e.message}: {e.cause}"

end Error

/-- A way in which an operation breaks off without a report. -/
inductive Crash
  /-- There is nothing at the index asked for. -/
  | indexOutOfRange
  /-- A result does not fit into its machine word. -/
  | overflow
  /-- A text is to be cut inside a character. -/
  | splitCharacter
  /-- More is to be kept than there can be room for. -/
  | capacity
  deriving DecidableEq, Repr

/-- The words for a crash. -/
def Crash.cause : Crash → String
  | indexOutOfRange => "index out of range"
  | overflow => "overflow"
  | splitCharacter => "cut inside a character"
  | capacity => "capacity exceeded"

/-- How an operation that can report errors of type `ε` ends badly. -/
inductive Failure (ε : Type)
  | reported (error : ε)
  | crashed (crash : Crash)
  deriving DecidableEq, Repr

/-- The same failure with its error in a wider type. -/
def Failure.map {ε δ : Type} (f : ε → δ) : Failure ε → Failure δ
  | reported e => reported (f e)
  | crashed c => crashed c

end Brainfuck
