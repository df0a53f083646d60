import Brainfuck.Proofs.Assembly
import Brainfuck.Proofs.Lexing
import Brainfuck.Proofs.Stretch

/-!
# Which texts compile

A text compiles exactly if the brackets among its bytes are balanced, idioms or not, and an error
names the bracket that a count of brackets alone would name.

* `FirstSurplus`: the first `]` at which the bytes have closed more than they have opened.
* `LastOpen`: the last `[` that the bytes behind it never close.

`Program.ofPhrases_cases` says what becomes of the phrases of a token list in each of the three
cases of `balanced_or_surplus_or_open`. How the tokens are cut does not matter, as long as each piece
is a bracket by itself or a balanced row (`Piece`). The three cases exclude each other and each names
one place only, so that what is said of a text in one direction holds in the other too (`Judged`).
-/

namespace Brainfuck

/-- The bytes up to and with the one at `offset` close more than they open, and no fewer do. -/
structure FirstSurplus (bytes : List UInt8) (offset : Nat) : Prop where
  below : depth byteBracket? (bytes.take (offset + 1)) < 0
  first : ∀ length ≤ offset, 0 ≤ depth byteBracket? (bytes.take length)

/-- A `[` stands at `offset`, and nothing behind it comes back to the level in front of it. -/
structure StaysOpen (bytes : List UInt8) (offset : Nat) : Prop where
  opening : bytes[offset]?.bind byteBracket? = some .opening
  deeper : ∀ length ≤ bytes.length, offset < length →
    depth byteBracket? (bytes.take offset) < depth byteBracket? (bytes.take length)

/-- The last `[` that stays open to the end of the bytes. -/
structure LastOpen (bytes : List UInt8) (offset : Nat) : Prop where
  staysOpen : StaysOpen bytes offset
  last : ∀ later, StaysOpen bytes later → later ≤ offset

/-! ## Each case names one place -/

theorem FirstSurplus.not_neverBelow {bytes : List UInt8} {offset : Nat}
    (h : FirstSurplus bytes offset) : ¬NeverBelow byteBracket? bytes := fun hnever =>
  Int.not_lt.mpr (hnever _ (List.take_prefix (offset + 1) bytes)) h.below

theorem FirstSurplus.unique {bytes : List UInt8} {offset offset' : Nat}
    (h : FirstSurplus bytes offset) (h' : FirstSurplus bytes offset') : offset = offset' := by
  rcases Nat.lt_trichotomy offset offset' with hlt | heq | hgt
  · exact absurd h.below (Int.not_lt.mpr (h'.first (offset + 1) hlt))
  · exact heq
  · exact absurd h'.below (Int.not_lt.mpr (h.first (offset' + 1) hgt))

theorem StaysOpen.lt_length {bytes : List UInt8} {offset : Nat} (h : StaysOpen bytes offset) :
    offset < bytes.length := by
  rcases Nat.lt_or_ge offset bytes.length with hlt | hge
  · exact hlt
  · have hopening := h.opening
    rw [List.getElem?_eq_none hge] at hopening
    cases hopening

theorem StaysOpen.not_balanced {bytes : List UInt8} {offset : Nat} (h : StaysOpen bytes offset) :
    ¬Balanced byteBracket? bytes := by
  intro hbalanced
  have hdeeper := h.deeper bytes.length (Nat.le_refl _) h.lt_length
  rw [List.take_length, hbalanced.depth_eq_zero] at hdeeper
  exact Int.not_lt.mpr (hbalanced.neverBelow _ (List.take_prefix offset bytes)) hdeeper

theorem LastOpen.unique {bytes : List UInt8} {offset offset' : Nat} (h : LastOpen bytes offset)
    (h' : LastOpen bytes offset') : offset = offset' :=
  Nat.le_antisymm (h'.last offset h.staysOpen) (h.last offset' h'.staysOpen)

/-! ## From tokens to bytes -/

/-- A `]` too many among the tokens is a byte too many among the bytes. -/
theorem SurplusAt.firstSurplus {bytes : List UInt8} {front : List Token} {offset : Nat}
    (h : SurplusAt Token.bracket? (tokensFrom 0 bytes) front ⟨.endLoop, offset⟩) :
    FirstSurplus bytes offset := by
  obtain ⟨-, hfront, behind, htokens⟩ := h
  obtain ⟨before, byte, after, rfl, hoffset, hbyte, rfl, -⟩ := tokensFrom_eq_append htokens
  have hoffset : offset = before.length := hoffset.trans (Nat.zero_add _)
  subst hoffset
  have hbefore := hfront.of_tokensFrom
  constructor
  · rw [List.append_cons, List.take_left' (by simp), depth_append, hbefore.depth_eq_zero,
      depth_cons, byteBracket?_eq, hbyte]
    exact Int.negSucc_lt_zero 0
  · intro length hlength
    rw [List.take_append_of_le_length hlength]
    exact hbefore.neverBelow _ (List.take_prefix length before)

/-- A `[` left open among the tokens is a byte left open among the bytes. -/
theorem OpenAt.lastOpen {bytes : List UInt8} {front : List Token} {offset : Nat}
    (h : OpenAt Token.bracket? (tokensFrom 0 bytes) front ⟨.beginLoop, offset⟩) :
    LastOpen bytes offset := by
  obtain ⟨-, -, behind, hbehind, htokens⟩ := h
  obtain ⟨before, byte, after, rfl, hoffset, hbyte, -, rfl⟩ := tokensFrom_eq_append htokens
  have hoffset : offset = before.length := hoffset.trans (Nat.zero_add _)
  subst hoffset
  have hafter := hbehind.of_tokensFrom
  have hbracket : byteBracket? byte = some .opening := by
    rw [byteBracket?_eq, hbyte]
    rfl
  -- one level deeper behind the bracket, and never less deep
  have hdepth : ∀ length, before.length < length →
      depth byteBracket? ((before ++ byte :: after).take length) =
        depth byteBracket? before + 1 +
          depth byteBracket? (after.take (length - before.length - 1)) := by
    intro length hlength
    obtain ⟨more, rfl⟩ : ∃ more, length = before.length + (more + 1) :=
      ⟨length - before.length - 1, by omega⟩
    rw [List.take_length_add_append, List.take_succ_cons, depth_append, depth_cons, hbracket,
      ← Int.add_assoc]
    congr 3
    omega
  refine ⟨⟨?_, fun length _ hlength => ?_⟩, fun later hlater => ?_⟩
  · rw [List.getElem?_append_right (Nat.le_refl _), Nat.sub_self]
    exact hbracket
  · rw [hdepth length hlength, List.take_left' rfl]
    have := hafter.neverBelow _ (List.take_prefix (length - before.length - 1) after)
    omega
  -- a `[` further on that stays open would take the balanced rest below its level
  · rcases Nat.lt_or_ge before.length later with hlt | hge
    · have hend := hlater.deeper _ (Nat.le_refl _) hlater.lt_length
      rw [hdepth later hlt, hdepth _ (Nat.lt_trans hlt hlater.lt_length)] at hend
      have hlength : (before ++ byte :: after).length - before.length - 1 = after.length := by
        rw [List.length_append, List.length_cons]
        omega
      rw [hlength, List.take_length, hafter.depth_eq_zero] at hend
      have := hafter.neverBelow _ (List.take_prefix (later - before.length - 1) after)
      omega
    · exact hge

/-! ## Pieces -/

/-- The phrase stands for the tokens: as a bracket for itself at its place, and otherwise for a
balanced row. -/
def Phrase.Covers : Phrase → List Token → Prop
  | beginLoop offset, tokens => tokens = [⟨.beginLoop, offset⟩]
  | endLoop offset, tokens => tokens = [⟨.endLoop, offset⟩]
  | _, tokens => Balanced Token.bracket? tokens

/-- A phrase and tokens that it stands for. Unlike in a `Stretch`, the tokens need not spell it. -/
structure Piece where
  phrase : Phrase
  tokens : List Token
  covers : phrase.Covers tokens

/-- The tokens of a row of pieces. -/
def pieceTokens (row : List Piece) : List Token := row.flatMap (·.tokens)

@[simp] theorem pieceTokens_cons (x : Piece) (row : List Piece) :
    pieceTokens (x :: row) = x.tokens ++ pieceTokens row := List.flatMap_cons

@[simp] theorem pieceTokens_append (front behind : List Piece) :
    pieceTokens (front ++ behind) = pieceTokens front ++ pieceTokens behind := List.flatMap_append

namespace Piece

/-- The bracket that the piece is. An idiom is none. -/
def bracket? (x : Piece) : Option Bracket := x.phrase.bracket?

theorem standsFor (x : Piece) : StandsFor Token.bracket? x.bracket? x.tokens := by
  obtain ⟨phrase, tokens, hcovers⟩ := x
  cases phrase with
  | beginLoop offset => exact ⟨⟨.beginLoop, offset⟩, hcovers, rfl⟩
  | endLoop offset => exact ⟨⟨.endLoop, offset⟩, hcovers, rfl⟩
  | _ => exact hcovers

theorem tokens_of_beginLoop {x : Piece} {offset : Nat} (h : x.phrase = .beginLoop offset) :
    x.tokens = [⟨.beginLoop, offset⟩] := by
  have hcovers := x.covers
  rw [h] at hcovers
  exact hcovers

theorem tokens_of_endLoop {x : Piece} {offset : Nat} (h : x.phrase = .endLoop offset) :
    x.tokens = [⟨.endLoop, offset⟩] := by
  have hcovers := x.covers
  rw [h] at hcovers
  exact hcovers

end Piece

theorem Stretch.covers (x : Stretch) : x.phrase.Covers x.tokens := by
  cases hphrase : x.phrase with
  | beginLoop offset => exact x.beginLoop_located offset hphrase
  | endLoop offset => exact x.endLoop_located offset hphrase
  | _ =>
    have hbalanced : Balanced Command.bracket? (x.tokens.map (·.command)) :=
      Stretch.balanced_commands (x := x) (by rw [Stretch.bracket?, hphrase]; rfl)
    exact (balanced_map_iff (f := Token.command)).mp hbalanced

/-- A stretch is a piece. -/
def Stretch.piece (x : Stretch) : Piece := ⟨x.phrase, x.tokens, x.covers⟩

theorem pieceTokens_stretches (tokens : List Token) :
    pieceTokens ((stretches tokens).map Stretch.piece) = tokens := by
  rw [pieceTokens, List.flatMap_map]
  exact rowTokens_stretches tokens

theorem map_phrase_pieces (tokens : List Token) :
    ((stretches tokens).map Stretch.piece).map (·.phrase) = Phrase.split tokens := by
  rw [List.map_map]
  exact map_phrase_stretches tokens

namespace Program

/-- **What becomes of tokens that are cut into pieces.** They are balanced, and their phrases
are a program; or they have a `]` too many, or a `[` that stays open, and then that bracket is
reported. -/
theorem ofPhrases_cases (row : List Piece) :
    (Balanced Token.bracket? (pieceTokens row) ∧ ∃ p, ofPhrases (row.map (·.phrase)) = .ok p) ∨
    (∃ front offset, SurplusAt Token.bracket? (pieceTokens row) front ⟨.endLoop, offset⟩ ∧
      ofPhrases (row.map (·.phrase)) = .error ⟨.closing, offset⟩) ∨
    ∃ front offset, OpenAt Token.bracket? (pieceTokens row) front ⟨.beginLoop, offset⟩ ∧
      ofPhrases (row.map (·.phrase)) = .error ⟨.opening, offset⟩ := by
  have hbalanced : ∀ part : List Piece, Balanced Piece.bracket? part →
      Balanced Phrase.bracket? (part.map (·.phrase)) :=
    fun part hpart => (balanced_map_iff (f := Piece.phrase)).mpr hpart
  -- the three kinds of row, each told of the phrases and of the tokens
  rcases balanced_or_surplus_or_open Piece.bracket? row with
    hrow | ⟨front, x, hx, hfront, behind, rfl⟩ | ⟨front, x, hx, hnever, behind, hbehind, rfl⟩
  · exact Or.inl ⟨hrow.flatMap Piece.standsFor, ofPhrases_of_balanced (hbalanced row hrow)⟩
  · obtain ⟨offset, hphrase⟩ := Phrase.exists_endLoop hx
    have hsurplus : SurplusAt Phrase.bracket? ((front ++ x :: behind).map (·.phrase))
        (front.map (·.phrase)) (.endLoop offset) := by
      refine ⟨rfl, hbalanced front hfront, behind.map (·.phrase), ?_⟩
      rw [List.map_append, List.map_cons, hphrase]
    refine Or.inr (Or.inl ⟨pieceTokens front, offset, ⟨rfl, hfront.flatMap Piece.standsFor,
      pieceTokens behind, ?_⟩, ofPhrases_of_surplusAt hsurplus⟩)
    rw [pieceTokens_append, pieceTokens_cons, x.tokens_of_endLoop hphrase, List.singleton_append]
  · obtain ⟨offset, hphrase⟩ := Phrase.exists_beginLoop hx
    have hopen : OpenAt Phrase.bracket? ((front ++ x :: behind).map (·.phrase))
        (front.map (·.phrase)) (.beginLoop offset) := by
      refine ⟨rfl, (neverBelow_map_iff (f := Piece.phrase)).mpr hnever, behind.map (·.phrase),
        hbalanced behind hbehind, ?_⟩
      rw [List.map_append, List.map_cons, hphrase]
    refine Or.inr (Or.inr ⟨pieceTokens front, offset, ⟨rfl, hnever.flatMap Piece.standsFor,
      pieceTokens behind, hbehind.flatMap Piece.standsFor, ?_⟩, ofPhrases_of_openAt hopen⟩)
    rw [pieceTokens_append, pieceTokens_cons, x.tokens_of_beginLoop hphrase,
      List.singleton_append]

/-- What becomes of a token list. -/
theorem ofTokens_cases (tokens : List Token) :
    (Balanced Token.bracket? tokens ∧ ∃ p, ofTokens tokens = .ok p) ∨
    (∃ front offset, SurplusAt Token.bracket? tokens front ⟨.endLoop, offset⟩ ∧
      ofTokens tokens = .error ⟨.closing, offset⟩) ∨
    ∃ front offset, OpenAt Token.bracket? tokens front ⟨.beginLoop, offset⟩ ∧
      ofTokens tokens = .error ⟨.opening, offset⟩ := by
  have hcases := ofPhrases_cases ((stretches tokens).map Stretch.piece)
  rw [pieceTokens_stretches, map_phrase_pieces] at hcases
  exact hcases

end Program

/-! ## What brackets say of an answer -/

/-- The answer that is due to bytes, by their brackets alone: a program exactly if they are
balanced, a `]` exactly if it is the first to close too much, and a `[` exactly if no `]` closes too
much and it is the last that stays open. -/
structure Judged (bytes : List UInt8) (answer : Except UnmatchedBracket Program) : Prop where
  accepted : (∃ p, answer = .ok p) ↔ Balanced byteBracket? bytes
  closing : ∀ offset, answer = .error ⟨.closing, offset⟩ ↔ FirstSurplus bytes offset
  opening : ∀ offset, answer = .error ⟨.opening, offset⟩ ↔
    NeverBelow byteBracket? bytes ∧ LastOpen bytes offset

/-- The three cases exclude each other, and each names one place. -/
theorem judged_of_cases {bytes : List UInt8} {answer : Except UnmatchedBracket Program}
    (h : (Balanced byteBracket? bytes ∧ ∃ p, answer = .ok p) ∨
      (∃ offset, FirstSurplus bytes offset ∧ answer = .error ⟨.closing, offset⟩) ∨
      ∃ offset, NeverBelow byteBracket? bytes ∧ LastOpen bytes offset ∧
        answer = .error ⟨.opening, offset⟩) : Judged bytes answer := by
  rcases h with
    ⟨hbalanced, p, rfl⟩ | ⟨offset, hsurplus, rfl⟩ | ⟨offset, hnever, hopen, rfl⟩
  · constructor
    · exact ⟨fun _ => hbalanced, fun _ => ⟨p, rfl⟩⟩
    · intro offset
      exact ⟨fun h => (by cases h), fun h => absurd hbalanced.neverBelow h.not_neverBelow⟩
    · intro offset
      exact ⟨fun h => (by cases h), fun h => absurd hbalanced h.2.staysOpen.not_balanced⟩
  · constructor
    · exact ⟨fun ⟨p, hp⟩ => (by cases hp), fun h => absurd h.neverBelow hsurplus.not_neverBelow⟩
    · intro offset'
      constructor
      · intro h
        cases h
        exact hsurplus
      · intro h
        rw [hsurplus.unique h]
    · intro offset'
      exact ⟨fun h => (by cases h), fun h => absurd h.1 hsurplus.not_neverBelow⟩
  · constructor
    · exact ⟨fun ⟨p, hp⟩ => (by cases hp), fun h => absurd h hopen.staysOpen.not_balanced⟩
    · intro offset'
      exact ⟨fun h => (by cases h), fun h => absurd hnever h.not_neverBelow⟩
    · intro offset'
      constructor
      · intro h
        cases h
        exact ⟨hnever, hopen⟩
      · intro h
        rw [hopen.unique h.2]

/-- However the tokens of bytes are cut into pieces, what is made of these is judged by the brackets
among the bytes. -/
theorem judged_of_pieces {row : List Piece} {bytes : List UInt8}
    (h : pieceTokens row = tokensFrom 0 bytes) :
    Judged bytes (Program.ofPhrases (row.map (·.phrase))) := by
  apply judged_of_cases
  rcases Program.ofPhrases_cases row with
    ⟨hbalanced, hok⟩ | ⟨front, offset, hsurplus, herror⟩ | ⟨front, offset, hopen, herror⟩
  · rw [h] at hbalanced
    exact Or.inl ⟨hbalanced.of_tokensFrom, hok⟩
  · rw [h] at hsurplus
    exact Or.inr (Or.inl ⟨offset, hsurplus.firstSurplus, herror⟩)
  · rw [h] at hopen
    exact Or.inr (Or.inr ⟨offset, hopen.2.1.of_tokensFrom, hopen.lastOpen, herror⟩)

namespace Program

theorem compile_judged (text : String) : Judged text.toUTF8.toList (compile text) := by
  have hjudged := judged_of_pieces (pieceTokens_stretches (tokensFrom 0 text.toUTF8.toList))
  rw [map_phrase_pieces] at hjudged
  rw [compile, Lexer.tokens_ofText]
  exact hjudged

/-- A text compiles exactly if its brackets are balanced. -/
theorem compile_eq_ok_iff (text : String) :
    (∃ p, compile text = .ok p) ↔ Balanced byteBracket? text.toUTF8.toList :=
  (compile_judged text).accepted

/-! ## Bytes that may be no text -/

/-- Bytes that are a text compile as that text does. -/
theorem compileBytes_toUTF8 (text : String) :
    compileBytes text.toUTF8 = (compile text).mapError .unmatchedBracket := by
  rw [compileBytes, Utf8.decode_toUTF8]

/-- Bytes that compile are a text that does. -/
theorem exists_text_of_compileBytes {bytes : ByteArray} {p : Program}
    (h : compileBytes bytes = .ok p) : ∃ text, text.toUTF8 = bytes ∧ compile text = .ok p := by
  cases hdecode : Utf8.decode bytes with
  | error defect =>
    rw [compileBytes, hdecode] at h
    cases h
  | ok text =>
    obtain rfl := Utf8.decode_eq_ok_iff.mp hdecode
    rw [compileBytes_toUTF8] at h
    cases hcompile : compile text with
    | ok p' =>
      rw [hcompile] at h
      cases h
      exact ⟨text, rfl, hcompile⟩
    | error e =>
      rw [hcompile] at h
      cases h

end Program

end Brainfuck
