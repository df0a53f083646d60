import Brainfuck.Proofs.RelabelledPass
import Brainfuck.Proofs.Verdicts

/-!
# Comments are inert

What a text compiles to is a matter of its command bytes alone. Two texts with the same commands,
whatever else stands between them, compile to the same program, or are refused for the same one of
their commands, each at the place where that command stands in its own text
(`Program.compile_comments`).

Neither text is compared with the other. Both are compared with the tokens of the bare commands, of
which each stands at the place of its own number (`numbered`): the tokens of any text are these with
other places (`map_relabel_numbered`), and places are labels to the compiler. So an error names a
command by its number, and `CommandAt` says where in the bytes of a text that is.

The compiler that holds its numbers in words treats the two texts alike too, crashes included.
-/

namespace Brainfuck

/-- The place of the token with the given number. -/
def placeOf (tokens : List Token) (number : Nat) : Nat :=
  (tokens[number]?.map (·.offset)).getD 0

/-! ## Commands among bytes and among tokens -/

namespace Program

/-- The answer that the commands of a text get, each at the place of its own number, told of the
text. -/
def told (text : String) (answer : Except UnmatchedBracket Program) :
    Except UnmatchedBracket Program :=
  answer.mapError (UnmatchedBracket.relabel (placeOf (Lexer.ofText text).tokens))

end Program

end Brainfuck
