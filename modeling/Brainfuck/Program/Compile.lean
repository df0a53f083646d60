import Brainfuck.Phrase
import Brainfuck.Program

/-!
# Compiling a source text

A source text is read into tokens, the tokens are cut into phrases, and the phrases are assembled
into opcodes in a single pass.

An `Assembly` is the state between two phrases. Moves are held back in `pending` until an opcode
comes that can carry them. The start of a loop is emitted before the place of its end is known, so
its partner is filled in when the end comes.

A text is refused for its first `]` without a `[` before it, or else for the last `[` that is still
open at its end.

Numbers are as great as the text makes them here. `Program.compileInWords` holds them in machine
words.
-/

namespace Brainfuck

/-- The start of a loop whose end has not come yet. -/
structure OpenLoop where
  /-- The index of its opcode. -/
  index : Nat
  /-- The byte offset of its `[` in the source text. -/
  offset : Nat
  deriving DecidableEq, Repr

/-- A program of which some phrases have been assembled. -/
structure Assembly where
  /-- The sum of the moves that no opcode carries yet. -/
  pending : Int
  /-- The loops that are still open, innermost first. -/
  opened : List OpenLoop
  /-- The opcodes so far. -/
  code : Array Opcode
  deriving DecidableEq, Repr

namespace Assembly

/-- Nothing has been assembled yet. -/
def empty : Assembly := ⟨0, [], #[]⟩

/-- Emits an opcode, which carries the pending moves. -/
def emit (action : Action) : Assembly → Assembly
  | ⟨pending, opened, code⟩ => ⟨0, opened, code.push ⟨pending, action⟩⟩

/-- Emits the start of a loop. Its partner is filled in by `endLoop`. -/
def beginLoop (offset : Nat) : Assembly → Assembly
  | ⟨pending, opened, code⟩ =>
    let index := code.size
    ⟨0, ⟨index, offset⟩ :: opened, code.push ⟨pending, .beginLoop 0⟩⟩

/-- Emits the end of the innermost open loop and makes it the partner of the loop's start. -/
def endLoop (offset : Nat) : Assembly → Except UnmatchedBracket Assembly
  | ⟨_, [], _⟩ => .error ⟨.closing, offset⟩
  | ⟨pending, start :: opened, code⟩ =>
    let index := code.size
    let code := code.modify start.index fun opcode => { opcode with action := .beginLoop index }
    .ok ⟨0, opened, code.push ⟨pending, .endLoop start.index⟩⟩

/-- Assembles one more phrase. -/
def add (a : Assembly) : Phrase → Except UnmatchedBracket Assembly
  | .move d => .ok { a with pending := a.pending + d.unit }
  | .perform effect => .ok (a.emit (.perform effect))
  | .beginLoop offset => .ok (a.beginLoop offset)
  | .endLoop offset => a.endLoop offset

/-- The program, if no loop is left open. Moves that no opcode carries are dropped. -/
def finish (a : Assembly) : Except UnmatchedBracket Program :=
  match a.opened with
  | [] => .ok ⟨a.code⟩
  | innermost :: _ => .error ⟨.opening, innermost.offset⟩

end Assembly

namespace Program

/-- Assembles phrases into a program. -/
def ofPhrases (phrases : List Phrase) : Except UnmatchedBracket Program := do
  let a ← phrases.foldlM Assembly.add .empty
  a.finish

/-- Compiles the tokens of a text. -/
def ofTokens (tokens : List Token) : Except UnmatchedBracket Program :=
  ofPhrases (Phrase.split tokens)

/-- Compiles a source text. -/
def compile (text : String) : Except UnmatchedBracket Program :=
  ofTokens (Lexer.ofText text).tokens

/-- Compiles bytes, which have to be text. -/
def compileBytes (bytes : ByteArray) : Except Error Program :=
  match Utf8.decode bytes with
  | .error defect => .error (.notText defect)
  | .ok text => (compile text).mapError .unmatchedBracket

end Program

end Brainfuck
