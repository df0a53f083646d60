import Brainfuck.Idiom
import Brainfuck.Tape
import Brainfuck.Text.Numeral

/-!
# Loop idioms, token by token

`Idiom.recognize?` says which loops are idioms with numbers of any size. Here the copying loop is
recognised in one pass over its tokens, and every number on the way is held in a machine word: the
place of the walk in a signed word, what is added there in half a word, the number of tokens in a
word. What becomes of a number that does not fit is a matter of how the program was built
(`Overflow`): it crashes, or goes on with what the word can hold of the number.

* `Walk.out` goes away from the cell that is copied and counts what is added where.
* `Walk.back` returns to it.
* `Idiom.recognizeInWords?` looks for all three idioms in this way.
-/

namespace Brainfuck

/-! ## Numbers that have to fit -/

/-- The greatest number that fits into half a word. -/
def greatestHalfWord : Nat := 4294967295

/-- A number that must not exceed `greatest`. -/
def atMost (greatest value : Nat) : Except Crash Nat :=
  if value ≤ greatest then .ok value else .error .overflow

/-- A number that has to fit into a signed word. -/
def inPosition (value : Int) : Except Crash Int :=
  if leastPosition ≤ value ∧ value ≤ greatestPosition then .ok value else .error .overflow

/-- What a program does with a number that does not fit into its word. Programs are built to do
either. -/
inductive Overflow
  /-- It checks every number, and crashes. -/
  | crashes
  /-- It goes on with the lowest bits of the number, as many as the word has. -/
  | wraps
  deriving DecidableEq, Repr

namespace Overflow

/-- A number that goes into an unsigned word, of which `greatest` is the greatest number. -/
def held (o : Overflow) (greatest value : Nat) : Except Crash Nat :=
  match o with
  | crashes => atMost greatest value
  | wraps => .ok (value % (greatest + 1))

/-- A number that goes into a signed word. -/
def heldSigned (o : Overflow) (value : Int) : Except Crash Int :=
  match o with
  | crashes => inPosition value
  | wraps => .ok (Int.bmod value (Text.greatestWord + 1))

example : held .crashes 255 256 = .error .overflow ∧ held .wraps 255 256 = .ok 0
    ∧ heldSigned .wraps 9223372036854775808 = .ok (-9223372036854775808) := ⟨rfl, rfl, rfl⟩

variable (o : Overflow)

/-- A number that fits is held as it is. -/
theorem held_of_le {greatest value : Nat} (h : value ≤ greatest) :
    o.held greatest value = .ok value := by
  cases o with
  | crashes => exact if_pos h
  | wraps => exact congrArg Except.ok (Nat.mod_eq_of_lt (Nat.lt_succ_of_le h))

theorem held_word_of_le {value : Nat} (h : (value : Int) ≤ greatestPosition) :
    o.held Text.greatestWord value = .ok value := by
  apply held_of_le
  unfold greatestPosition at h
  unfold Text.greatestWord
  omega

theorem heldSigned_of_natAbs_le {value : Int} (h : (value.natAbs : Int) ≤ greatestPosition) :
    o.heldSigned value = .ok value := by
  unfold greatestPosition at h
  cases o with
  | crashes =>
    refine if_pos ⟨?_, ?_⟩
    · unfold leastPosition
      omega
    · unfold greatestPosition
      omega
  | wraps =>
    refine congrArg Except.ok (Int.bmod_eq_of_le ?_ ?_)
    · unfold Text.greatestWord
      omega
    · unfold Text.greatestWord
      omega

end Overflow

/-! ## Targets in the making -/

/-- The targets, in ascending order of their offsets, with `count` more added at one of them. If
there is no target at the offset yet, there is one afterwards. -/
def addTarget (o : Overflow) (offset : Int) (count : Nat) :
    List Target → Except Crash (List Target)
  | [] => do
    let factor ← o.held greatestHalfWord (0 + count)
    return [⟨offset, factor⟩]
  | t :: rest =>
    if t.offset < offset then do
      let rest ← addTarget o offset count rest
      return t :: rest
    else if t.offset = offset then do
      let factor ← o.held greatestHalfWord (t.factor + count)
      return ⟨offset, factor⟩ :: rest
    else do
      let factor ← o.held greatestHalfWord (0 + count)
      return ⟨offset, factor⟩ :: t :: rest

example : addTarget .crashes (-1) 2 [⟨-2, 3⟩, ⟨-1, 4⟩] = .ok [⟨-2, 3⟩, ⟨-1, 6⟩] := by rfl

example : addTarget .crashes 1 1 [⟨1, 4294967295⟩] = .error .overflow
    ∧ addTarget .wraps 1 1 [⟨1, 4294967295⟩] = .ok [⟨1, 0⟩] := ⟨rfl, rfl⟩

/-! ## The walk -/

/-- A walk away from a cell, on its way. -/
structure Walk where
  /-- Where the walk is, counted from the cell it started from. -/
  depth : Int
  /-- The increments that have been met there so far. -/
  count : Nat
  /-- What is added elsewhere. -/
  targets : List Target
  /-- How many tokens of the loop have been passed, its `[` included. -/
  passed : Nat
  deriving DecidableEq, Repr

namespace Walk

/-- A walk that has passed `[-`. -/
def start : Walk := ⟨0, 0, [], 2⟩

/-- What has been counted at a place becomes a target when the walk leaves it. -/
def settle (o : Overflow) (w : Walk) : Except Crash Walk :=
  if 0 < w.count then do
    let targets ← addTarget o w.depth w.count w.targets
    return { w with targets := targets, count := 0 }
  else return w

/-- One increment more at the place where the walk is. -/
def increment (o : Overflow) (w : Walk) : Except Crash Walk := do
  let count ← o.held greatestHalfWord (w.count + 1)
  let passed ← o.held Text.greatestWord (w.passed + 1)
  return { w with count := count, passed := passed }

/-- One cell further in direction `d`. -/
def move (o : Overflow) (d : Direction) (w : Walk) : Except Crash Walk := do
  let depth ← o.heldSigned (w.depth + d.unit)
  let passed ← o.held Text.greatestWord (w.passed + 1)
  return { w with depth := depth, passed := passed }

/-- Goes in direction `d` and adds to the cells it passes, up to the first move the other way. Any
other token, and the end of the text, breaks the walk off. -/
def out (o : Overflow) (d : Direction) (w : Walk) :
    List Token → Except Crash (Option (Walk × List Token))
  | [] => return none
  | t :: rest =>
    match t.command with
    | .increment => do
      let w ← w.increment o
      out o d w rest
    | .move toward => do
      let w ← w.settle o
      if toward = d then
        let w ← w.move o d
        out o d w rest
      else return some (w, t :: rest)
    | _ => return none

/-- Goes in direction `d` and adds nothing, up to the first other token. -/
def back (o : Overflow) (d : Direction) (w : Walk) :
    List Token → Except Crash (Option (Walk × List Token))
  | [] => return none
  | t :: rest =>
    if t.command = .move d then do
      let w ← w.move o d
      back o d w rest
    else return some (w, t :: rest)

/-- The idiom of a loop whose walk is back in front of the given tokens. -/
def idiom? (o : Overflow) (w : Walk) (ahead : List Token) : Except Crash (Option Idiom) :=
  match ahead with
  | ⟨.endLoop, _⟩ :: _ =>
    if w.depth = 0 ∧ w.targets ≠ [] then do
      let length ← o.held Text.greatestWord (w.passed + 1)
      return some ⟨.copy w.targets, length⟩
    else return none
  | _ => return none

/-- The idiom of a loop whose walk has gone in direction `d` and has turned in front of the given
tokens. -/
def close? (o : Overflow) (d : Direction) (w : Walk) (behind : List Token) :
    Except Crash (Option Idiom) := do
  match ← w.back o d.opposite behind with
  | none => return none
  | some (w, ahead) => w.idiom? o ahead

end Walk

namespace Idiom

/-- `copyAlong?` in one pass. -/
def copyAlongInWords? (o : Overflow) (d : Direction) (body : List Token) :
    Except Crash (Option Idiom) := do
  match ← Walk.start.out o d body with
  | none => return none
  | some (w, behind) => w.close? o d behind

/-- `copy?` in one pass. -/
def copyInWords? (o : Overflow) : List Token → Except Crash (Option Idiom)
  | ⟨.beginLoop, _⟩ :: ⟨.decrement, _⟩ :: ⟨.move d, offset⟩ :: rest =>
    copyAlongInWords? o d (⟨.move d, offset⟩ :: rest)
  | _ => return none

/-- `recognize?` in one pass. The other two idioms need no numbers. -/
def recognizeInWords? (o : Overflow) (tokens : List Token) : Except Crash (Option Idiom) :=
  match clear? tokens with
  | some i => return some i
  | none => do
    match ← copyInWords? o tokens with
    | some i => return some i
    | none => return scan? tokens

end Idiom

end Brainfuck
