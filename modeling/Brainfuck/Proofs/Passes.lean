import Brainfuck.Proofs.Advances

/-!
# A pass over the tokens is safe

Compiling in one pass over the tokens comes to the same end as cutting them into phrases and
assembling these, without a crash, and within as many rounds as there are tokens
(`Program.compile_total`).

The only number that may not fit into its word is the count of increments in a copying loop. So
what holds of a pass over any text holds up to the first loop that adds too much (`Overloaded`): a
pass that checks its numbers crashes there, and any other goes on with what half words hold of the
loop, or with a loop that is no idiom (`Program.compileInWords_cases`).

`Pass.Taken` carries this over the rounds: the tokens in front of the cursor are those of the pieces
that have been assembled, and these are the phrases of the text if it is not overloaded. What it
comes to at the end is `Pass.Ends`.
-/

namespace Brainfuck

variable {o : Overflow} {tokens : List Token} {first : Token} {rest : List Token}

/-- Some loop adds more at one place than half a word can count, and nothing in front of it closes
too much. -/
def Overloaded (commands : List Command) : Prop :=
  ∃ front behind, commands = front ++ behind ∧ NeverBelow Command.bracket? front ∧
    Idiom.Overloads behind

theorem overloaded_iff {tokens : List Token} :
    Overloaded (tokens.map (·.command)) ↔ ∃ index, NeverBelow Token.bracket? (tokens.take index) ∧
      Idiom.Overloads ((tokens.drop index).map (·.command)) := by
  constructor
  · rintro ⟨front, behind, hcommands, hnever, hover⟩
    obtain ⟨front, behind, rfl, rfl, rfl⟩ := List.map_eq_append_iff.mp hcommands
    refine ⟨front.length, ?_, ?_⟩
    · rw [List.take_left' rfl]
      exact (neverBelow_map_iff (f := Token.command)).mp hnever
    · rw [List.drop_left' rfl]
      exact hover
  · rintro ⟨index, hnever, hover⟩
    refine ⟨_, _, ?_, (neverBelow_map_iff (f := Token.command)).mpr hnever, hover⟩
    rw [← List.map_append, List.take_append_drop]

/-- A text needs more commands than half a word can count to be overloaded. -/
theorem not_overloaded_of_length_le {commands : List Command}
    (h : commands.length ≤ greatestHalfWord) : ¬Overloaded commands := by
  rintro ⟨front, behind, rfl, -, hover⟩
  rw [List.length_append] at h
  exact Idiom.not_overloads_of_length_le (Nat.le_trans (Nat.le_add_left ..) h) hover

namespace Pass

variable {p p' : Pass} {row more : List Piece}

/-! ## What has been taken up -/

/-- The tokens in front of the cursor are those of the pieces, and these have been assembled. -/
structure Taken (o : Overflow) (tokens : List Token) (p : Pass) (row : List Piece) : Prop where
  tokens_eq : pieceTokens row = tokens.take p.cursor
  assembled : Assembly.empty.addAll (row.map (·.phrase)) = .ok p.assembly
  effects : ∀ effect, .perform effect ∈ row.map (·.phrase) → effect.WellFormed
  /-- The pieces are the phrases of the tokens, if no loop adds too much. -/
  split_eq : ¬Overloaded (tokens.map (·.command)) →
    Phrase.split tokens = row.map (·.phrase) ++ Phrase.split (tokens.drop p.cursor)
  /-- No loop that adds too much has been passed. -/
  light : o = .crashes → ∀ index < p.cursor,
    ¬Idiom.Overloads ((tokens.drop index).map (·.command))

theorem start_taken (o : Overflow) (tokens : List Token) : Taken o tokens start [] where
  tokens_eq := rfl
  assembled := rfl
  effects := fun _ h => absurd h List.not_mem_nil
  split_eq := fun _ => rfl
  light := fun _ _ h => absurd h (Nat.not_lt_zero _)

/-- What has been taken up closes nothing that has not been opened. -/
theorem Taken.neverBelow (h : Taken o tokens p row) :
    NeverBelow Token.bracket? (tokens.take p.cursor) := by
  have hphrases := Program.neverBelow_of_addAll h.assembled
  rw [← h.tokens_eq]
  exact ((neverBelow_map_iff (f := Piece.phrase)).mp hphrases).flatMap Piece.standsFor

theorem Taken.overloaded (h : Taken o tokens p row)
    (hover : Idiom.Overloads ((tokens.drop p.cursor).map (·.command))) :
    Overloaded (tokens.map (·.command)) :=
  overloaded_iff.mpr ⟨p.cursor, h.neverBelow, hover⟩

theorem Taken.next (h : Taken o tokens p row) (hadvances : Advances o tokens p p' more) :
    Taken o tokens p' (row ++ more) where
  tokens_eq := by
    rw [pieceTokens_append, h.tokens_eq, hadvances.cursor_eq, List.take_add, hadvances.ahead_eq,
      List.take_left' rfl]
  assembled := by
    rw [List.map_append]
    exact Assembly.addAll_append_eq_ok.mpr ⟨_, h.assembled, hadvances.assembled⟩
  effects effect heffect := by
    rw [List.map_append] at heffect
    exact (List.mem_append.mp heffect).elim (h.effects effect) (hadvances.effects effect)
  split_eq := by
    intro hnot
    rw [h.split_eq hnot, hadvances.split_eq fun hover => hnot (h.overloaded hover),
      List.map_append, List.append_assoc]
  light := by
    intro ho index hlt
    rcases Nat.lt_or_ge index p.cursor with hbefore | hbehind
    · exact h.light ho index hbefore
    · exact hadvances.light ho index hbehind hlt

/-- Where all tokens have been taken up, no loop adds too much. -/
theorem Taken.not_overloaded_of_end (h : Taken o tokens p row) (ho : o = .crashes)
    (hend : tokens.length ≤ p.cursor) : ¬Overloaded (tokens.map (·.command)) := by
  rw [overloaded_iff]
  rintro ⟨index, -, hover⟩
  rcases Nat.lt_or_ge index p.cursor with hlt | hge
  · exact h.light ho index hlt hover
  · obtain ⟨d, behind, hcommands, -⟩ := hover
    rw [List.drop_of_length_le (Nat.le_trans hend hge)] at hcommands
    cases hcommands

/-- A `]` too many ends the text for the compiler, so a loop behind it does not count. -/
theorem Taken.not_overloaded_of_closing (h : Taken o tokens p row) (ho : o = .crashes)
    {offset : Nat} (hahead : tokens.drop p.cursor = ⟨.endLoop, offset⟩ :: rest)
    (hopened : p.assembly.opened = []) : ¬Overloaded (tokens.map (·.command)) := by
  have hphrases : Program.ofPhrases (row.map (·.phrase)) = .ok ⟨p.assembly.code⟩ :=
    Program.ofPhrases_eq_ok_iff.mpr ⟨_, h.assembled, hopened, rfl⟩
  have hbalanced : Balanced Token.bracket? (tokens.take p.cursor) := by
    rw [← h.tokens_eq]
    exact ((balanced_map_iff (f := Piece.phrase)).mp
      (Program.balanced_of_ofPhrases hphrases)).flatMap Piece.standsFor
  rw [overloaded_iff]
  rintro ⟨index, hnever, hover⟩
  rcases Nat.lt_or_ge index p.cursor with hlt | hge
  · exact h.light ho index hlt hover
  · obtain ⟨further, rfl⟩ := Nat.exists_eq_add_of_le hge
    rcases further with - | further
    · rw [Nat.add_zero, hahead] at hover
      exact Idiom.not_overloads_cons _ (by simp) hover
    · -- the `]` stands in front of the loop
      rw [List.take_add, hahead, List.take_succ_cons] at hnever
      have hsurplus : SurplusAt Token.bracket?
          (tokens.take p.cursor ++ ⟨.endLoop, offset⟩ :: rest.take further) _ ⟨.endLoop, offset⟩ :=
        ⟨rfl, hbalanced, _, rfl⟩
      exact hsurplus.not_neverBelow hnever

/-! ## Whole passes -/

theorem run_of_none (h : tokens[p.cursor]? = none) (limit : Nat) :
    run o tokens limit p = some (p.assembly.finish.mapError .reported) := by
  simp only [run, h]

theorem run_of_ok {limit : Nat} (hfirst : tokens[p.cursor]? = some first)
    (hround : p.round o tokens first = .ok p') :
    run o tokens (limit + 1) p = run o tokens limit p' := by
  rw [run.eq_def, hfirst]
  simp only [hround]

theorem run_of_error {limit : Nat} {failure : Failure UnmatchedBracket}
    (hfirst : tokens[p.cursor]? = some first) (hround : p.round o tokens first = .error failure) :
    run o tokens (limit + 1) p = some (.error failure) := by
  rw [run.eq_def, hfirst]
  simp only [hround]

/-- Without a token ahead, the program that comes out is what has been assembled. -/
theorem code_of_run {limit : Nat} {program : Program} (hfirst : tokens[p.cursor]? = none)
    (hrun : run o tokens limit p = some (.ok program)) : p.assembly.code = program.code := by
  rw [run_of_none hfirst, Option.some.injEq] at hrun
  unfold Assembly.finish at hrun
  split at hrun
  · cases hrun
    rfl
  · cases hrun

/-- A pass comes to the end that the pieces of the text come to. -/
structure Ends (o : Overflow) (tokens : List Token)
    (result : Option (Except (Failure UnmatchedBracket) Program)) (row : List Piece) : Prop where
  tokens_eq : pieceTokens row = tokens
  result_eq : result = some ((Program.ofPhrases (row.map (·.phrase))).mapError .reported)
  effects : ∀ effect, .perform effect ∈ row.map (·.phrase) → effect.WellFormed
  split_eq : ¬Overloaded (tokens.map (·.command)) → row.map (·.phrase) = Phrase.split tokens
  light : o = .crashes → ¬Overloaded (tokens.map (·.command))

/-- The end of the text is the end of the pass. -/
theorem Taken.ends_of_end (h : Taken o tokens p row) (hfirst : tokens[p.cursor]? = none)
    (limit : Nat) : Ends o tokens (run o tokens limit p) row := by
  have hend := List.getElem?_eq_none_iff.mp hfirst
  constructor
  case tokens_eq => rw [h.tokens_eq, List.take_of_length_le hend]
  case result_eq =>
    rw [run_of_none hfirst]
    show _ = some (Except.mapError _ (Assembly.empty.addAll _ >>= fun a => a.finish))
    rw [h.assembled]
    rfl
  case effects => exact h.effects
  case split_eq =>
    intro hnot
    rw [h.split_eq hnot, List.drop_of_length_le hend, Phrase.split_nil, List.append_nil]
  case light => exact fun ho => h.not_overloaded_of_end ho hend

/-- A `]` too many is what the pieces come to, however those behind it are cut. -/
theorem Taken.ends_of_closing (h : Taken o tokens p row) {offset limit : Nat}
    (hfirst : tokens[p.cursor]? = some ⟨.endLoop, offset⟩) (hopened : p.assembly.opened = [])
    (hround : p.round o tokens ⟨.endLoop, offset⟩ = .error (.reported ⟨.closing, offset⟩)) :
    ∃ row, Ends o tokens (run o tokens (limit + 1) p) row := by
  obtain ⟨rest, hahead⟩ := exists_ahead hfirst
  let closing : Piece := ⟨.endLoop offset, [⟨.endLoop, offset⟩], rfl⟩
  refine ⟨row ++ closing :: (stretches rest).map Stretch.piece, ?_⟩
  constructor
  case tokens_eq =>
    rw [pieceTokens_append, pieceTokens_cons, pieceTokens_stretches, h.tokens_eq]
    show tokens.take p.cursor ++ ([⟨.endLoop, offset⟩] ++ rest) = _
    rw [List.singleton_append, ← hahead, List.take_append_drop]
  case result_eq =>
    have hadd : p.assembly.add (.endLoop offset) = .error ⟨.closing, offset⟩ := by
      obtain ⟨cursor, pending, opened, code⟩ := p
      cases hopened
      rfl
    rw [run_of_error hfirst hround, List.map_append, List.map_cons]
    show _ = some (Except.mapError _ (Assembly.empty.addAll _ >>= fun a => a.finish))
    rw [Assembly.addAll_append, h.assembled]
    show _ = some (Except.mapError _ (Assembly.addAll _ _ >>= fun a => a.finish))
    rw [Assembly.addAll_cons, hadd]
    rfl
  case effects =>
    intro effect heffect
    rw [List.map_append, List.map_cons, map_phrase_pieces, List.mem_append,
      List.mem_cons] at heffect
    rcases heffect with heffect | heffect | heffect
    · exact h.effects effect heffect
    · cases heffect
    · obtain ⟨commands, hspelled⟩ := Program.exists_spelled heffect
      exact Program.wellFormed_of_spelled hspelled
  case split_eq =>
    intro hnot
    rw [h.split_eq hnot, List.map_append, List.map_cons, map_phrase_pieces, hahead,
      Phrase.split_cons]
    rfl
  case light => exact fun ho => h.not_overloaded_of_closing ho hahead hopened

/-- **What becomes of a pass** that has not used up its rounds before its tokens. -/
theorem Taken.run_cases (h : Taken o tokens p row) (hsound : p.Sound tokens)
    (hroom : ((tokens.length : Nat) : Int) ≤ greatestPosition) {limit : Nat}
    (hlimit : tokens.length ≤ p.cursor + limit) :
    (∃ row, Ends o tokens (run o tokens limit p) row) ∨
      o = .crashes ∧ Overloaded (tokens.map (·.command)) ∧
        run o tokens limit p = some (.error (.crashed .overflow)) := by
  induction limit generalizing p row with
  | zero => exact Or.inl ⟨row, h.ends_of_end (List.getElem?_eq_none hlimit) 0⟩
  | succ limit ih =>
    cases hfirst : tokens[p.cursor]? with
    | none => exact Or.inl ⟨row, h.ends_of_end hfirst _⟩
    | some first =>
      rcases round_cases (o := o) hsound hroom hfirst with
        ⟨p', more, hround, hadvances⟩ | ⟨offset, rfl, hopened, hround⟩ | ⟨ho, hover, hround⟩
      · rw [run_of_ok hfirst hround]
        refine ih (h.next hadvances) hadvances.sound ?_
        have := hadvances.cursor_eq
        have := hadvances.pos
        omega
      · exact Or.inl (h.ends_of_closing hfirst hopened hround)
      · exact Or.inr ⟨ho, h.overloaded hover, run_of_error hfirst hround⟩

/-- A round that goes well advances. -/
theorem Sound.advances_of_round (h : p.Sound tokens)
    (hroom : ((tokens.length : Nat) : Int) ≤ greatestPosition)
    (hfirst : tokens[p.cursor]? = some first) (hround : p.round o tokens first = .ok p') :
    ∃ row, Advances o tokens p p' row := by
  rcases round_cases (o := o) h hroom hfirst with
    ⟨p'', row, hround', hadvances⟩ | ⟨offset, -, -, hround'⟩ | ⟨-, -, hround'⟩
  · rw [hround, Except.ok.injEq] at hround'
    exact ⟨row, hround' ▸ hadvances⟩
  · rw [hround] at hround'
    cases hround'
  · rw [hround] at hround'
    cases hround'

/-- The invariant holds between any two rounds. -/
theorem Reached.sound (hroom : ((tokens.length : Nat) : Int) ≤ greatestPosition)
    (h : Reached o tokens p) : p.Sound tokens := by
  induction h with
  | start => exact start_sound tokens
  | round _ hfirst hround ih =>
    obtain ⟨row, hadvances⟩ := ih.advances_of_round hroom hfirst hround
    exact hadvances.sound

/-- A program that comes out of a pass is what a sound pass has assembled. -/
theorem exists_end (h : p.Sound tokens)
    (hroom : ((tokens.length : Nat) : Int) ≤ greatestPosition) {limit : Nat} {program : Program}
    (hrun : run o tokens limit p = some (.ok program)) :
    ∃ p' : Pass, p'.Sound tokens ∧ p'.assembly.code = program.code := by
  induction limit generalizing p with
  | zero =>
    cases hfirst : tokens[p.cursor]? with
    | none => exact ⟨p, h, code_of_run hfirst hrun⟩
    | some first =>
      rw [run.eq_def, hfirst] at hrun
      cases hrun
  | succ limit ih =>
    cases hfirst : tokens[p.cursor]? with
    | none => exact ⟨p, h, code_of_run hfirst hrun⟩
    | some first =>
      cases hround : p.round o tokens first with
      | ok p' =>
        obtain ⟨row, hadvances⟩ := h.advances_of_round hroom hfirst hround
        exact ih hadvances.sound (run_of_ok hfirst hround ▸ hrun)
      | error failure =>
        rw [run_of_error hfirst hround] at hrun
        cases hrun

/-- What is promised of a pass between two rounds. -/
structure Safe (o : Overflow) (tokens : List Token) (p : Pass) : Prop where
  /-- Nothing out of range is looked at in the next round, and no number overflows. -/
  not_crashed : ∀ first, tokens[p.cursor]? = some first →
    ∀ crash, p.round o tokens first ≠ .error (.crashed crash)
  /-- The next round takes up a token, and none that is not there. -/
  advances : ∀ first, tokens[p.cursor]? = some first →
    ∀ p', p.round o tokens first = .ok p' → p.cursor + 1 ≤ p'.cursor ∧ p'.cursor ≤ tokens.length
  cursor_le : p.cursor ≤ tokens.length
  /-- No number is greater than that of the tokens taken up so far. -/
  bounded : p.assembly.Bounded p.cursor

theorem Sound.safe (h : p.Sound tokens) (hroom : tokens.length ≤ greatestHalfWord) :
    p.Safe o tokens := by
  have hroom' : ((tokens.length : Nat) : Int) ≤ greatestPosition := by
    unfold greatestHalfWord at hroom
    unfold greatestPosition
    omega
  refine ⟨?_, ?_, h.cursor_le, h.bounded⟩
  · intro first hfirst crash hcrash
    rcases round_cases (o := o) h hroom' hfirst with
      ⟨p', row, hround, -⟩ | ⟨offset, -, -, hround⟩ | ⟨-, hover, -⟩
    · rw [hround] at hcrash
      cases hcrash
    · rw [hround] at hcrash
      cases hcrash
    · -- there are not enough tokens to add too much
      refine Idiom.not_overloads_of_length_le ?_ hover
      rw [List.length_map, List.length_drop]
      omega
  · intro first hfirst p' hround
    obtain ⟨row, hadvances⟩ := h.advances_of_round hroom' hfirst hround
    have := hadvances.cursor_eq
    have := hadvances.pos
    exact ⟨by omega, hadvances.sound.cursor_le⟩

end Pass

namespace Program

/-- What becomes of a text in one pass, whatever its length. -/
theorem compileInWords_cases (o : Overflow) {text : String}
    (hroom : (((Plain.commandsOf text).length : Nat) : Int) ≤ greatestPosition) :
    (∃ row, Pass.Ends o (Lexer.ofText text).tokens (compileInWords o text) row) ∨
      o = .crashes ∧ Overloaded (Plain.commandsOf text) ∧
        compileInWords o text = some (.error (.crashed .overflow)) := by
  rw [Plain.commandsOf, List.length_map] at hroom
  exact (Pass.start_taken o _).run_cases (Pass.start_sound _) hroom (Nat.le_add_left ..)

/-- In one pass a text compiles as it does in two, if no loop adds too much. -/
theorem compileInWords_eq (o : Overflow) {text : String}
    (hroom : (((Plain.commandsOf text).length : Nat) : Int) ≤ greatestPosition)
    (h : ¬Overloaded (Plain.commandsOf text)) :
    compileInWords o text = some ((compile text).mapError .reported) := by
  rcases compileInWords_cases o hroom with ⟨row, hends⟩ | ⟨-, hover, -⟩
  · rw [hends.result_eq, hends.split_eq h]
    rfl
  · exact absurd hover h

/-- **Compiling is total, and nothing overflows.** In a text of fewer than 2 ^ 32 commands no round
of the pass over them looks at what is not there or overflows, and each takes up a command. So the
pass ends after no more rounds than there are commands, with what `compile` tells. A program it
makes has no more opcodes, and no greater numbers in them, than the text has commands. -/
theorem compile_total (o : Overflow) {text : String}
    (h : (Plain.commandsOf text).length < 2 ^ 32) :
    (∀ p, Pass.Reached o (Lexer.ofText text).tokens p → p.Safe o (Lexer.ofText text).tokens) ∧
    Pass.run o (Lexer.ofText text).tokens (Plain.commandsOf text).length .start =
      some ((compile text).mapError .reported) ∧
    ∀ p, compile text = .ok p → p.size ≤ (Plain.commandsOf text).length ∧
      ∀ o ∈ p.code, o.Bounded (Plain.commandsOf text).length := by
  have hcommands : (Plain.commandsOf text).length = (Lexer.ofText text).tokens.length :=
    List.length_map _
  have hhalf : (Plain.commandsOf text).length ≤ greatestHalfWord := Nat.le_of_lt_succ h
  have hroom : (((Plain.commandsOf text).length : Nat) : Int) ≤ greatestPosition := by
    unfold greatestPosition
    omega
  have hrun : compileInWords o text = some ((compile text).mapError .reported) :=
    compileInWords_eq o hroom (not_overloaded_of_length_le hhalf)
  rw [hcommands] at h hhalf hroom ⊢
  refine ⟨fun p hp => (hp.sound hroom).safe hhalf, hrun, ?_⟩
  intro p hp
  rw [hp] at hrun
  obtain ⟨pass, hpass, hcode⟩ := Pass.exists_end (Pass.start_sound _) hroom hrun
  refine ⟨?_, ?_⟩
  · show p.code.size ≤ _
    rw [← hcode]
    exact Nat.le_trans hpass.bounded.size_le hpass.cursor_le
  · intro o ho
    exact (hpass.bounded.opcodes o (hcode ▸ ho)).mono hpass.cursor_le

/-- A move and a copying loop are taken up in two rounds, of the seven that there may be, whether
numbers are checked or not. -/
theorem compile_total_of_copy :
    (Plain.commandsOf ">[->+<]").length < 2 ^ 32 ∧ ∀ o,
      Pass.run o (Lexer.ofText ">[->+<]").tokens (Plain.commandsOf ">[->+<]").length .start =
        some (.ok ⟨#[⟨1, .perform (.copy [⟨1, 1⟩])⟩]⟩) := by
  have hlength : (Plain.commandsOf ">[->+<]").length < 2 ^ 32 := by decide +kernel
  have hcompile : compile ">[->+<]" = .ok ⟨#[⟨1, .perform (.copy [⟨1, 1⟩])⟩]⟩ := by
    decide +kernel
  refine ⟨hlength, fun o => ?_⟩
  obtain ⟨-, hrun, -⟩ := compile_total o hlength
  rw [hcompile] at hrun
  exact hrun

end Program

end Brainfuck
