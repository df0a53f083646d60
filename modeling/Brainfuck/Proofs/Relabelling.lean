import Brainfuck.Proofs.Assembly
import Brainfuck.Proofs.Grammar
import Brainfuck.Proofs.Lexing

/-!
# Places in a text are labels

The place at which a token stands in its text is carried along by brackets and comes to light in
errors only. So a program does not change when the places of its tokens do: `f` is what becomes of a
place, and everything that carries places has its `relabel f`.

Main result: `Program.ofTokens_relabel`. Tokens with other places compile to the same program, or
are refused for the same bracket at its other place. A text behind `n` more bytes, for one, has its
tokens `n` places further on (`tokensFrom_add`).
-/

namespace Brainfuck

/-- The token at another place. -/
def Token.relabel (f : Nat → Nat) (t : Token) : Token := { t with offset := f t.offset }

/-- The phrase at another place. -/
def Phrase.relabel (f : Nat → Nat) : Phrase → Phrase
  | beginLoop offset => beginLoop (f offset)
  | endLoop offset => endLoop (f offset)
  | phrase => phrase

/-- The open loop at another place. -/
def OpenLoop.relabel (f : Nat → Nat) (l : OpenLoop) : OpenLoop := { l with offset := f l.offset }

/-- The assembly with its open loops at other places. -/
def Assembly.relabel (f : Nat → Nat) (a : Assembly) : Assembly :=
  { a with opened := a.opened.map (OpenLoop.relabel f) }

/-- The error with the bracket at another place. -/
def UnmatchedBracket.relabel (f : Nat → Nat) (e : UnmatchedBracket) : UnmatchedBracket :=
  { e with offset := f e.offset }

variable {f : Nat → Nat}

theorem map_command_relabel (tokens : List Token) :
    (tokens.map (Token.relabel f)).map (·.command) = tokens.map (·.command) := by
  rw [List.map_map]
  rfl

/-- A text behind `n` more bytes has its tokens `n` places further on. -/
theorem tokensFrom_add (offset n : Nat) (bytes : List UInt8) :
    tokensFrom (offset + n) bytes = (tokensFrom offset bytes).map (Token.relabel (· + n)) := by
  induction bytes generalizing offset with
  | nil => rfl
  | cons byte rest ih =>
    cases h : Command.ofByte? byte with
    | none =>
      rw [tokensFrom_cons_comment rest h, tokensFrom_cons_comment rest h, Nat.add_right_comm, ih]
    | some c =>
      rw [tokensFrom_cons_command rest h, tokensFrom_cons_command rest h, Nat.add_right_comm, ih]
      rfl

/-! ## Phrases -/

namespace Phrase

theorem takeWhile_relabel (c : Command) (tokens : List Token) :
    (tokens.map (Token.relabel f)).takeWhile (·.command = c) =
      (tokens.takeWhile (·.command = c)).map (Token.relabel f) :=
  List.takeWhile_map

theorem runLength_relabel (c : Command) (tokens : List Token) :
    runLength c (tokens.map (Token.relabel f)) = runLength c tokens := by
  rw [runLength, takeWhile_relabel, List.length_map, runLength]

/-- The phrase at the front takes up as many tokens wherever they stand. -/
theorem start_relabel (first : Token) (rest : List Token) :
    start (first.relabel f) (rest.map (Token.relabel f)) =
      ((start first rest).1.relabel f, (start first rest).2) := by
  obtain ⟨command, offset⟩ := first
  cases command with
  | move d | read | write | endLoop => rfl
  | increment =>
    show (perform (.add (runLength .increment _ + 1)), runLength .increment _) = _
    rw [runLength_relabel]
    rfl
  | decrement =>
    show (perform (.sub (runLength .decrement _ + 1)), runLength .decrement _) = _
    rw [runLength_relabel]
    rfl
  | beginLoop =>
    have hidiom := Idiom.recognize?_congr
      (map_command_relabel (f := f) (⟨.beginLoop, offset⟩ :: rest))
    rw [List.map_cons] at hidiom
    rw [start, start]
    dsimp only [Token.relabel] at hidiom ⊢
    rw [hidiom]
    cases Idiom.recognize? (⟨.beginLoop, offset⟩ :: rest) with
    | none => rfl
    | some i => rfl

/-- Tokens at other places are cut into the same phrases at other places. -/
theorem split_relabel (tokens : List Token) :
    split (tokens.map (Token.relabel f)) = (split tokens).map (relabel f) := by
  -- by induction on the number of tokens, since a phrase may take up many
  induction hlength : tokens.length using Nat.strongRecOn generalizing tokens with
  | ind n ih =>
    subst hlength
    cases tokens with
    | nil => rw [List.map_nil, split_nil, List.map_nil]
    | cons first rest =>
      have hshort : (rest.drop (start first rest).2).length < (first :: rest).length := by
        rw [List.length_drop, List.length_cons]
        omega
      rw [List.map_cons, split_cons, split_cons, start_relabel, ← List.map_drop, List.map_cons,
        ih _ hshort _ rfl]

end Phrase

/-! ## Programs -/

namespace Assembly

theorem add_relabel (a : Assembly) (phrase : Phrase) :
    (a.relabel f).add (phrase.relabel f) =
      ((a.add phrase).map (relabel f)).mapError (UnmatchedBracket.relabel f) := by
  obtain ⟨pending, opened, code⟩ := a
  cases phrase with
  | endLoop offset => cases opened <;> rfl
  | _ => rfl

theorem addAll_relabel (a : Assembly) (phrases : List Phrase) :
    (a.relabel f).addAll (phrases.map (Phrase.relabel f)) =
      ((a.addAll phrases).map (relabel f)).mapError (UnmatchedBracket.relabel f) := by
  induction phrases generalizing a with
  | nil => rfl
  | cons phrase phrases ih =>
    rw [List.map_cons, addAll_cons, addAll_cons, add_relabel]
    cases a.add phrase with
    | error e => rfl
    | ok a' => exact ih a'

theorem finish_relabel (a : Assembly) :
    (a.relabel f).finish = a.finish.mapError (UnmatchedBracket.relabel f) := by
  obtain ⟨pending, opened, code⟩ := a
  cases opened <;> rfl

end Assembly

namespace Program

theorem ofPhrases_relabel (phrases : List Phrase) :
    ofPhrases (phrases.map (Phrase.relabel f)) =
      (ofPhrases phrases).mapError (UnmatchedBracket.relabel f) := by
  have hadd := Assembly.addAll_relabel (f := f) Assembly.empty phrases
  show (Assembly.empty.addAll (phrases.map (Phrase.relabel f)) >>= fun a => a.finish) =
    (Assembly.empty.addAll phrases >>= fun a => a.finish).mapError (UnmatchedBracket.relabel f)
  rw [show Assembly.empty.addAll _ = _ from hadd]
  cases Assembly.empty.addAll phrases with
  | error e => rfl
  | ok a => exact a.finish_relabel

/-- **Places do not matter to a program**, and an error names the place of the same bracket. -/
theorem ofTokens_relabel (tokens : List Token) :
    ofTokens (tokens.map (Token.relabel f)) =
      (ofTokens tokens).mapError (UnmatchedBracket.relabel f) := by
  rw [ofTokens, Phrase.split_relabel, ofPhrases_relabel, ofTokens]

end Program

end Brainfuck
