import Brainfuck.Command

/-!
# Tokens

A token is a command together with the place where it stands in the source text, counted in bytes.
A `Lexer` hands out the tokens of a text one at a time, from front to back, and skips comments.

* `Lexer.tokens_of_next_some`: taking one token and then the rest is taking them all.
* `Lexer.next_cons_command`, `Lexer.next_cons_comment`: the next token, read one byte at a time.
-/

namespace Brainfuck

/-- A command and the byte offset at which it stands. -/
structure Token where
  command : Command
  offset : Nat
  deriving DecidableEq, Repr

/-- The part of a text that has not been read yet. -/
structure Lexer where
  /-- The bytes still to be read. -/
  rest : List UInt8
  /-- How many bytes have been read. -/
  offset : Nat
  deriving Repr

namespace Lexer

/-- A lexer at the start of the bytes of a text. -/
def ofBytes (bytes : ByteArray) : Lexer := ⟨bytes.toList, 0⟩

/-- A lexer at the start of a text. -/
def ofText (text : String) : Lexer := ofBytes text.toUTF8

/-- Skips comments up to the next command and hands out its token, if the text holds one more. -/
def nextFrom (offset : Nat) : List UInt8 → Option Token × Lexer
  | [] => (none, ⟨[], offset⟩)
  | byte :: rest =>
    match Command.ofByte? byte with
    | some command => (some ⟨command, offset⟩, ⟨rest, offset + 1⟩)
    | none => nextFrom (offset + 1) rest

/-- The next token, if there is one, and the lexer behind it. -/
def next (l : Lexer) : Option Token × Lexer := nextFrom l.offset l.rest

theorem nextFrom_length {offset : Nat} {bytes : List UInt8} {t : Token} {l : Lexer}
    (h : nextFrom offset bytes = (some t, l)) : l.rest.length < bytes.length := by
  fun_induction nextFrom offset bytes with
  | case1 => simp at h
  | case2 offset byte rest command _ =>
    cases h
    simp
  | case3 offset byte rest _ ih =>
    have := ih h
    simp only [List.length_cons]
    omega

/-- All remaining tokens, put behind `taken`, which holds earlier ones in reverse. -/
def collect (taken : List Token) (l : Lexer) : List Token :=
  match _h : l.next with
  | (some t, l') => collect (t :: taken) l'
  | (none, _) => taken.reverse
termination_by l.rest.length
decreasing_by exact nextFrom_length _h

/-- All remaining tokens, in order. -/
def tokens (l : Lexer) : List Token := l.collect []

/-- The next `n` answers of the lexer, and the lexer behind them. -/
def take : Nat → Lexer → List (Option Token) × Lexer
  | 0, l => ([], l)
  | n + 1, l =>
    let (token, l') := l.next
    let (later, l'') := take n l'
    (token :: later, l'')

/-- What was handed out before does not change what comes. -/
theorem collect_append (taken earlier : List Token) (l : Lexer) :
    l.collect (taken ++ earlier) = earlier.reverse ++ l.collect taken := by
  fun_induction collect taken l with
  | case1 taken l t l' h ih =>
    rw [collect, h]
    exact ih
  | case2 taken l l' h =>
    rw [collect, h]
    simp

/-- Taking one token and then the rest is taking them all. -/
theorem tokens_of_next_some {l l' : Lexer} {t : Token} (h : l.next = (some t, l')) :
    l.tokens = t :: l'.tokens := by
  rw [tokens, collect, h]
  exact collect_append [] [t] l'

theorem tokens_of_next_none {l l' : Lexer} (h : l.next = (none, l')) : l.tokens = [] := by
  rw [tokens, collect, h]
  simp

/-- A byte that starts no command is skipped. -/
theorem next_cons_comment {offset : Nat} {byte : UInt8} {rest : List UInt8}
    (h : Command.ofByte? byte = none) :
    next ⟨byte :: rest, offset⟩ = next ⟨rest, offset + 1⟩ := by
  simp [next, nextFrom, h]

theorem next_cons_command {offset : Nat} {byte : UInt8} {rest : List UInt8} {c : Command}
    (h : Command.ofByte? byte = some c) :
    next ⟨byte :: rest, offset⟩ = (some ⟨c, offset⟩, ⟨rest, offset + 1⟩) := by
  simp [next, nextFrom, h]

end Lexer

end Brainfuck
