import Brainfuck.Idiom

/-!
# Phrases

A phrase is a stretch of tokens that is compiled as a whole: a move, a run of the same arithmetic
command, a loop idiom, a single read or write, or a bracket that belongs to no idiom.

`Phrase.split` cuts a token list into its phrases, from front to back. Idioms are looked for at
every `[` that an earlier phrase has not taken up.
-/

namespace Brainfuck

/-- A stretch of tokens that is compiled as a whole. -/
inductive Phrase
  /-- A move of the cursor by one cell. -/
  | move (toward : Direction)
  /-- A single effect on the cells. -/
  | perform (effect : Effect)
  /-- A `[` at the given offset of the text. -/
  | beginLoop (offset : Nat)
  /-- A `]` at the given offset of the text. -/
  | endLoop (offset : Nat)
  deriving DecidableEq, Repr

namespace Phrase

/-- How many of the tokens at the front are the command `c`. -/
def runLength (c : Command) (tokens : List Token) : Nat :=
  (tokens.takeWhile (·.command = c)).length

/-- The phrase that starts at `first`, with `rest` behind it, and how many tokens of `rest` it takes
up. -/
def start (first : Token) (rest : List Token) : Phrase × Nat :=
  match first.command with
  | .move d => (move d, 0)
  | .increment =>
    let more := runLength .increment rest
    (perform (.add (more + 1)), more)
  | .decrement =>
    let more := runLength .decrement rest
    (perform (.sub (more + 1)), more)
  | .read => (perform .read, 0)
  | .write => (perform .write, 0)
  | .endLoop => (endLoop first.offset, 0)
  | .beginLoop =>
    match Idiom.recognize? (first :: rest) with
    | some idiom => (perform idiom.effect, idiom.length - 1)
    | none => (beginLoop first.offset, 0)

/-- The phrases of a token list, put behind `taken`, which holds earlier ones in reverse. -/
def collect (taken : List Phrase) : List Token → List Phrase
  | [] => taken.reverse
  | first :: rest =>
    let (phrase, more) := start first rest
    collect (phrase :: taken) (rest.drop more)
termination_by tokens => tokens.length
decreasing_by
  simp only [List.length_drop, List.length_cons]
  omega

/-- The phrases of a token list, in order. -/
def split (tokens : List Token) : List Phrase := collect [] tokens

theorem collect_append (taken earlier : List Phrase) (tokens : List Token) :
    collect (taken ++ earlier) tokens = earlier.reverse ++ collect taken tokens := by
  fun_induction collect taken tokens with
  | case1 taken =>
    rw [collect]
    simp
  | case2 taken first rest phrase more h ih =>
    rw [collect, h]
    exact ih

@[simp] theorem split_nil : split [] = [] := by
  rw [split, collect]
  rfl

/-- The first phrase, and then the phrases of what it leaves. -/
theorem split_cons (first : Token) (rest : List Token) :
    split (first :: rest)
      = (start first rest).1 :: split (rest.drop (start first rest).2) := by
  rw [split, collect]
  exact collect_append [] [_] _

end Phrase

end Brainfuck
