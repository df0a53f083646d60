import Brainfuck.Opcode
import Brainfuck.Token

/-!
# Loop idioms

Three shapes of loop have the effect of a single opcode. Each recogniser looks at the tokens that
start at a `[` and either declines or tells the effect of the loop and how many tokens it takes up.

* `clear?`: `[-]` and `[+]` set the cell to zero.
* `scan?`: `[>]` and `[<]` move to the next zero cell that way.
* `copy?`: `[-` and a walk away from the cell that adds to the cells it passes, then `]` after
  just as many moves back, adds a multiple of the cell to each of them and sets it to zero.

Numbers are as great as the loop makes them here. `Idiom.recognizeInWords?` holds them in machine
words.
-/

namespace Brainfuck

/-- A loop with the effect of a single opcode. -/
structure Idiom where
  effect : Effect
  /-- How many tokens the loop takes up, brackets included. -/
  length : Nat
  deriving DecidableEq, Repr

namespace Idiom

/-- The opcode that stands for the loop after moves that add up to `move`. -/
def opcode (i : Idiom) (move : Int) : Opcode := ⟨move, .perform i.effect⟩

/-- A loop that changes the cell by one, and does nothing else, until the cell is zero. -/
def clear? : List Token → Option Idiom
  | ⟨.beginLoop, _⟩ :: ⟨.decrement, _⟩ :: ⟨.endLoop, _⟩ :: _
  | ⟨.beginLoop, _⟩ :: ⟨.increment, _⟩ :: ⟨.endLoop, _⟩ :: _ => some ⟨.clear, 3⟩
  | _ => none

/-- A loop that does nothing but move one cell a round. -/
def scan? : List Token → Option Idiom
  | ⟨.beginLoop, _⟩ :: ⟨.move d, _⟩ :: ⟨.endLoop, _⟩ :: _ => some ⟨.scan d, 3⟩
  | _ => none

/-- The token belongs to a walk in direction `d` that adds to the cells it passes. -/
def outbound (d : Direction) (t : Token) : Bool :=
  t.command = .move d || t.command = .increment

/-- The token is a move in direction `d`. -/
def moves (d : Direction) (t : Token) : Bool := t.command = .move d

/-- The target at depth `depth` in direction `d`, if anything was added there. -/
def targetAt (d : Direction) (depth count : Nat) : List Target :=
  if count = 0 then [] else [⟨d.unit * depth, count⟩]

/-- The targets of a walk in direction `d`, nearest first, that has come to `depth` and there has
met `count` increments so far. -/
def targetsFrom (d : Direction) (depth count : Nat) : List Token → List Target
  | [] => targetAt d depth count
  | ⟨.increment, _⟩ :: rest => targetsFrom d depth (count + 1) rest
  | _ :: rest => targetAt d depth count ++ targetsFrom d (depth + 1) 0 rest

/-- The targets of a walk in direction `d`, in ascending order of their offsets. -/
def targets (d : Direction) (walk : List Token) : List Target :=
  match d with
  | .right => targetsFrom d 0 0 walk
  | .left => (targetsFrom d 0 0 walk).reverse

/-- The idiom of a loop that starts with `[-`, where `body` is what follows and its walk goes in
direction `d`. -/
def copyAlong? (d : Direction) (body : List Token) : Option Idiom :=
  let walk := body.takeWhile (outbound d)
  let behind := body.dropWhile (outbound d)
  let back := behind.takeWhile (moves d.opposite)
  match behind.dropWhile (moves d.opposite) with
  | ⟨.endLoop, _⟩ :: _ =>
    if back.length = walk.countP (moves d) ∧ back.length < walk.length then
      some ⟨.copy (targets d walk), 2 + walk.length + back.length + 1⟩
    else none
  | _ => none

/-- A loop that adds a multiple of the cell to others on one side of it. -/
def copy? : List Token → Option Idiom
  | ⟨.beginLoop, _⟩ :: ⟨.decrement, _⟩ :: ⟨.move d, offset⟩ :: rest =>
    copyAlong? d (⟨.move d, offset⟩ :: rest)
  | _ => none

/-- The idiom at the front of the tokens, if there is one. -/
def recognize? (tokens : List Token) : Option Idiom :=
  clear? tokens <|> copy? tokens <|> scan? tokens

end Idiom

end Brainfuck
