import Brainfuck.Idiom.Walk
import Brainfuck.Program.Compile

/-!
# Compiling in one pass over the tokens

`Program.compile` cuts the tokens into phrases and assembles these. Here both is done in a single
pass with an index into the tokens (`Pass`), as long as there is a token there: each `Pass.round`
takes up a run of equal moves or equal arithmetic commands, an idiom, or one other command.

Every look at a token or an opcode is a look at an index, which may be out of range: that is a
`Crash`. Every number is held in a machine word, which it may overflow, and what becomes of it then
is left open (`Overflow`).

`Program.compileInWords` is `Program.compile` in one pass.
-/

namespace Brainfuck

/-- A text that is being compiled. -/
structure Pass where
  /-- The index of the next token. -/
  cursor : Nat
  /-- What has been made of the tokens before. -/
  assembly : Assembly
  deriving DecidableEq, Repr

namespace Pass

/-- Before the first token. -/
def start : Pass := ⟨0, .empty⟩

/-! ## Tokens ahead -/

/-- The tokens from the cursor on. -/
def ahead (tokens : List Token) (p : Pass) : Except Crash (List Token) :=
  if p.cursor ≤ tokens.length then .ok (tokens.drop p.cursor) else .error .indexOutOfRange

/-- Takes up `count` tokens. -/
def skip (o : Overflow) (count : Nat) (p : Pass) : Except Crash Pass := do
  let cursor ← o.held Text.greatestWord (p.cursor + count)
  return { p with cursor := cursor }

/-- Takes up all tokens ahead that are the same command as the first, and tells their number. -/
def takeRun (o : Overflow) (tokens : List Token) (p : Pass) : Except Crash (Nat × Pass) :=
  match tokens[p.cursor]? with
  | none => .error .indexOutOfRange
  | some first => do
    let ahead ← p.ahead tokens
    let run := Phrase.runLength first.command ahead
    let p ← p.skip o run
    return (run, p)

/-! ## What is made of them -/

/-- The number that the bits of a word are as a signed word. -/
def signed (value : Nat) : Int := Int.bmod value (Text.greatestWord + 1)

theorem signed_of_le {value : Nat} (h : (value : Int) ≤ greatestPosition) :
    signed value = value := by
  unfold greatestPosition at h
  unfold signed Text.greatestWord
  apply Int.bmod_eq_of_le <;> omega

/-- Holds back a run of moves. -/
def hold (o : Overflow) (tokens : List Token) (d : Direction) (p : Pass) : Except Crash Pass := do
  let (run, p) ← p.takeRun o tokens
  let pending ← o.heldSigned (p.assembly.pending + d.unit * signed run)
  return { p with assembly := { p.assembly with pending := pending } }

/-- Emits a run of an arithmetic command. -/
def emitRun (o : Overflow) (tokens : List Token) (effect : Nat → Effect) (p : Pass) :
    Except Crash Pass := do
  let (run, p) ← p.takeRun o tokens
  return { p with assembly := p.assembly.emit (.perform (effect run)) }

/-- Emits an effect that takes up one token. -/
def emitOne (o : Overflow) (effect : Effect) (p : Pass) : Except Crash Pass := do
  let p ← p.skip o 1
  return { p with assembly := p.assembly.emit (.perform effect) }

/-- Emits an idiom, or else the start of a loop. -/
def beginLoop (o : Overflow) (tokens : List Token) (offset : Nat) (p : Pass) :
    Except Crash Pass := do
  let ahead ← p.ahead tokens
  match ← Idiom.recognizeInWords? o ahead with
  | some idiom =>
    let p ← p.skip o idiom.length
    return { p with assembly := p.assembly.emit (.perform idiom.effect) }
  | none =>
    let p ← p.skip o 1
    return { p with assembly := p.assembly.beginLoop offset }

/-- Fills in the partner of the start of a loop. Other opcodes stay as they are. -/
def fillIn (index partner : Nat) (code : Array Opcode) : Except Crash (Array Opcode) :=
  match code[index]? with
  | none => .error .indexOutOfRange
  | some ⟨move, .beginLoop _⟩ => .ok (code.setIfInBounds index ⟨move, .beginLoop partner⟩)
  | some _ => .ok code

/-- Emits the end of the innermost open loop, which began at `index`. -/
def endLoop (o : Overflow) (index : Nat) (opened : List OpenLoop) (p : Pass) :
    Except Crash Pass := do
  let code ← fillIn index p.assembly.code.size p.assembly.code
  let p ← p.skip o 1
  return { p with assembly := ⟨0, opened, code.push ⟨p.assembly.pending, .endLoop index⟩⟩ }

/-! ## Rounds -/

/-- What is done with the token at the cursor, and with those behind that go with it. -/
def round (o : Overflow) (tokens : List Token) (first : Token) (p : Pass) :
    Except (Failure UnmatchedBracket) Pass :=
  match first.command with
  | .move d => (p.hold o tokens d).mapError .crashed
  | .increment => (p.emitRun o tokens .add).mapError .crashed
  | .decrement => (p.emitRun o tokens .sub).mapError .crashed
  | .read => (p.emitOne o .read).mapError .crashed
  | .write => (p.emitOne o .write).mapError .crashed
  | .beginLoop => (p.beginLoop o tokens first.offset).mapError .crashed
  | .endLoop =>
    match p.assembly.opened with
    | [] => .error (.reported ⟨.closing, first.offset⟩)
    | innermost :: opened => (p.endLoop o innermost.index opened).mapError .crashed

/-- Goes on until no token is left. There is no answer if that takes more than `limit` rounds. -/
def run (o : Overflow) (tokens : List Token) (limit : Nat) (p : Pass) :
    Option (Except (Failure UnmatchedBracket) Program) :=
  match tokens[p.cursor]?, limit with
  | none, _ => some (p.assembly.finish.mapError .reported)
  | some _, 0 => none
  | some first, limit + 1 =>
    match p.round o tokens first with
    | .ok p => run o tokens limit p
    | .error failure => some (.error failure)

/-- The passes that come up between the rounds over a text. -/
inductive Reached (o : Overflow) (tokens : List Token) : Pass → Prop
  | start : Reached o tokens start
  | round {p p' : Pass} {first : Token} (h : Reached o tokens p)
      (hfirst : tokens[p.cursor]? = some first) (hround : p.round o tokens first = .ok p') :
      Reached o tokens p'

end Pass

namespace Program

/-- Compiles a source text in one pass, if it takes no more rounds than there are tokens. -/
def compileInWords (o : Overflow) (text : String) :
    Option (Except (Failure UnmatchedBracket) Program) :=
  let tokens := (Lexer.ofText text).tokens
  Pass.start.run o tokens tokens.length

end Program

end Brainfuck
