import Brainfuck.Program.Pass
import Brainfuck.Proofs.Acceptance
import Brainfuck.Proofs.Bounds
import Brainfuck.Proofs.Overloads
import Brainfuck.Proofs.WellFormed

/-!
# What a round of a pass takes up

A round takes up the tokens of one piece, or of a run of moves, and assembles them
(`Pass.Advances`). If it does not, it reports a `]` too many, or crashes at a loop that adds too
much (`Pass.round_cases`).

The invariant of a pass is `Pass.Sound`: the cursor is not past the end, every open loop has its
start among the opcodes, and no number in the assembly is greater than the number of tokens in front
of the cursor. From it follow the looks at indices and the numbers of a round.
-/

namespace Brainfuck

/-! ## Runs of moves -/

namespace Phrase

theorem runLength_cons {c : Command} {t : Token} (rest : List Token) (h : t.command = c) :
    runLength c (t :: rest) = runLength c rest + 1 := by
  rw [runLength, List.takeWhile_cons_of_pos (by simpa using h), List.length_cons]
  rfl

theorem runLength_le (c : Command) (tokens : List Token) : runLength c tokens ≤ tokens.length :=
  (List.takeWhile_prefix _).length_le

/-- A run of moves is cut into single ones. -/
theorem split_moves (d : Direction) (tokens : List Token) :
    split tokens = List.replicate (runLength (.move d) tokens) (.move d) ++
      split (tokens.drop (runLength (.move d) tokens)) := by
  induction tokens with
  | nil => rfl
  | cons t rest ih =>
    by_cases ht : t.command = .move d
    · have hstart : start t rest = (.move d, 0) := by
        rw [start, ht]
      rw [runLength_cons rest ht, split_cons, hstart, List.replicate_succ, List.drop_succ_cons,
        List.cons_append, ← ih]
      rfl
    · have hnone : runLength (.move d) (t :: rest) = 0 := by
        rw [runLength, List.takeWhile_cons_of_neg (by simpa using ht)]
        rfl
      rw [hnone]
      rfl

end Phrase

/-- Moves one way add up. -/
theorem Assembly.addAll_moves (a : Assembly) (d : Direction) (count : Nat) :
    a.addAll (List.replicate count (.move d)) =
      .ok ⟨a.pending + d.unit * count, a.opened, a.code⟩ := by
  induction count generalizing a with
  | zero =>
    rw [Int.natCast_zero, Int.mul_zero, Int.add_zero]
    rfl
  | succ count ih =>
    rw [List.replicate_succ, addAll_cons]
    refine (ih ⟨a.pending + d.unit, a.opened, a.code⟩).trans ?_
    rw [Except.ok.injEq, Assembly.mk.injEq]
    refine ⟨?_, rfl, rfl⟩
    cases d <;> simp only [Direction.unit] <;> omega

/-- The piece of a single move. -/
def Piece.ofMove (d : Direction) (offset : Nat) : Piece :=
  ⟨.move d, [⟨.move d, offset⟩], balanced_singleton rfl⟩

/-- The pieces of a run of moves. -/
def movePieces (d : Direction) (run : List Token) : List Piece :=
  run.map fun t => .ofMove d t.offset

theorem map_phrase_movePieces (d : Direction) (run : List Token) :
    (movePieces d run).map (·.phrase) = List.replicate run.length (.move d) := by
  rw [movePieces, List.map_map]
  exact List.map_const'

theorem pieceTokens_movePieces {d : Direction} {run : List Token}
    (h : ∀ t ∈ run, t.command = .move d) : pieceTokens (movePieces d run) = run := by
  induction run with
  | nil => rfl
  | cons t run ih =>
    have ht := h t List.mem_cons_self
    have hrun := ih fun t ht => h t (List.mem_cons_of_mem _ ht)
    obtain ⟨c, offset⟩ := t
    cases ht
    exact congrArg (List.cons _) hrun

/-! ## The piece that a round takes up -/

variable {o : Overflow} {tokens : List Token} {first : Token} {rest : List Token}

/-- A phrase that is more than one command long starts no loop behind its first command. -/
theorem Phrase.Spelled.not_beginLoop_mem_tail {phrase : Phrase} {commands : List Command}
    (h : phrase.Spelled commands) : .beginLoop ∉ commands.tail := by
  cases h with
  | @copy d first rest hfirst hrest hadds =>
    rw [Idiom.copyCommands_eq, List.cons_append, List.tail_cons, List.mem_append]
    rintro (hbody | hend)
    · simp only [Idiom.copyBody, List.mem_cons, List.mem_append, List.mem_map] at hbody
      rcases hbody with hdown | ⟨t, ht, hwalk⟩ | hback
      · cases hdown
      · have hout := Idiom.forall_outbound hfirst hrest t (List.mem_cons.mpr ht)
        rw [Idiom.outbound_iff, hwalk] at hout
        rcases hout with hout | hout <;> cases hout
      · cases List.eq_of_mem_replicate hback
    · cases List.mem_singleton.mp hend
  | add more =>
    intro hmem
    cases List.eq_of_mem_replicate (List.mem_of_mem_tail hmem)
  | sub more =>
    intro hmem
    cases List.eq_of_mem_replicate (List.mem_of_mem_tail hmem)
  | _ => simp

/-- Behind the first of some tokens no loop starts among them, so none that adds too much does. -/
theorem not_overloads_within {front behind : List Token} {index : Nat}
    (h : .beginLoop ∉ (front.map (·.command)).tail) (hpos : 0 < index)
    (hlt : index < front.length) :
    ¬Idiom.Overloads (((front ++ behind).drop index).map (·.command)) := by
  rw [List.drop_append_of_le_length (Nat.le_of_lt hlt), List.drop_eq_getElem_cons hlt,
    List.cons_append, List.map_cons]
  apply Idiom.not_overloads_cons
  intro hbegin
  apply h
  obtain ⟨more, rfl⟩ : ∃ more, index = more + 1 := ⟨index - 1, by omega⟩
  rw [← hbegin, ← List.map_tail]
  apply List.mem_map_of_mem
  rw [List.mem_iff_getElem?]
  exact ⟨more, by rw [List.getElem?_tail, List.getElem?_eq_getElem hlt]⟩

/-- A round may take up the piece `x` in front of `behind`. Unless the tokens start with a loop that
adds too much, `x` is the phrase that they start with. -/
structure Piece.Heads (o : Overflow) (ahead : List Token) (x : Piece) (behind : List Token) :
    Prop where
  ahead_eq : ahead = x.tokens ++ behind
  pos : 0 < x.tokens.length
  bounded : ∀ effect, x.phrase = .perform effect → effect.Bounded x.tokens.length
  wellFormed : ∀ effect, x.phrase = .perform effect → effect.WellFormed
  split_eq : ¬Idiom.Overloads (ahead.map (·.command)) →
    Phrase.split ahead = x.phrase :: Phrase.split behind
  light : o = .crashes → ¬Idiom.Overloads (ahead.map (·.command))
  alone : .beginLoop ∉ (x.tokens.map (·.command)).tail

/-- The stretch that the tokens start with. -/
theorem Stretch.heads (first : Token) (rest : List Token)
    (hlight : o = .crashes → ¬Idiom.Overloads ((first :: rest).map (·.command))) :
    (Stretch.ofStart first rest).piece.Heads o (first :: rest)
      (rest.drop (Phrase.start first rest).2) where
  ahead_eq := by
    show first :: rest = first :: rest.take _ ++ rest.drop _
    rw [List.cons_append, List.take_append_drop]
  pos := Nat.succ_pos _
  bounded effect heffect := by
    have hspelled := (Stretch.ofStart first rest).spelled
    rw [show (Stretch.ofStart first rest).phrase = _ from heffect] at hspelled
    have hbounded := hspelled.bounded
    rw [List.length_map] at hbounded
    exact hbounded
  wellFormed effect heffect := by
    have hspelled := (Stretch.ofStart first rest).spelled
    rw [show (Stretch.ofStart first rest).phrase = _ from heffect] at hspelled
    exact Program.wellFormed_of_spelled hspelled
  split_eq := fun _ => Phrase.split_cons first rest
  light := hlight
  alone := (Stretch.ofStart first rest).spelled.not_beginLoop_mem_tail

theorem Stretch.length_ofStart (first : Token) (rest : List Token) :
    (Stretch.ofStart first rest).piece.tokens.length = (Phrase.start first rest).2 + 1 := by
  show (first :: rest.take _).length = _
  rw [List.length_cons, List.length_take, Nat.min_eq_left (Phrase.start_le first rest)]

namespace Idiom

variable {i held : Idiom}

/-- Holding an idiom in half words does not make it longer or shorter. -/
theorem length_of_held? (h : i.held? = some held) : held.length = i.length := by
  obtain ⟨effect, length⟩ := i
  cases effect with
  | copy targets =>
    rw [held?_copy] at h
    split at h <;> cases h
    rfl
  | _ =>
    cases h
    rfl

theorem bounded_of_held? {bound : Nat} (hi : i.effect.Bounded bound) (h : i.held? = some held) :
    held.effect.Bounded bound := by
  obtain ⟨effect, length⟩ := i
  cases effect with
  | copy targets =>
    rw [held?_copy] at h
    split at h <;> cases h
    intro t ht
    obtain ⟨whole, hwhole, hheld⟩ := exists_of_mem_heldTargets ht
    obtain ⟨hoffset, -, hfactor⟩ := Target.of_held? hheld
    rw [hoffset]
    exact ⟨(hi whole hwhole).1, Nat.le_trans hfactor (hi whole hwhole).2⟩
  | _ =>
    cases h
    exact hi

theorem wellFormed_of_held? (hi : i.effect.WellFormed) (h : i.held? = some held) :
    held.effect.WellFormed := by
  obtain ⟨effect, length⟩ := i
  cases effect with
  | copy targets =>
    rw [held?_copy] at h
    split at h
    · cases h
    · next hleft =>
      cases h
      obtain ⟨-, hside, -, hordered⟩ := hi
      refine ⟨hleft, ?_, ?_, pairwise_heldTargets hordered⟩
      · refine hside.imp (fun hside t ht => ?_) (fun hside t ht => ?_)
        all_goals
          obtain ⟨whole, hwhole, hheld⟩ := exists_of_mem_heldTargets ht
          rw [(Target.of_held? hheld).1]
          exact hside whole hwhole
      · intro t ht
        obtain ⟨whole, -, hheld⟩ := exists_of_mem_heldTargets ht
        exact (Target.of_held? hheld).2.1
  | _ =>
    cases h
    exact hi

/-- The start of a loop that is not found to be an idiom can be taken up alone. -/
theorem exists_heads_of_none {opening : Nat}
    (h : (recognize? (⟨.beginLoop, opening⟩ :: rest)).bind held? = none)
    (hlight : o = .crashes → ¬Overloads ((⟨.beginLoop, opening⟩ :: rest).map (·.command))) :
    ∃ x : Piece, x.phrase = .beginLoop opening ∧ x.tokens.length = 1 ∧
      x.Heads o (⟨.beginLoop, opening⟩ :: rest) rest := by
  refine ⟨⟨.beginLoop opening, [⟨.beginLoop, opening⟩], rfl⟩, rfl, rfl, ?_⟩
  constructor
  case ahead_eq => rfl
  case pos => exact Nat.succ_pos 0
  case bounded =>
    intro effect heffect
    cases heffect
  case wellFormed =>
    intro effect heffect
    cases heffect
  case split_eq =>
    intro hnot
    -- nothing is lost of an idiom, so there is none
    cases hi : recognize? (⟨.beginLoop, opening⟩ :: rest) with
    | none =>
      rw [Phrase.split_cons, Phrase.start, hi]
      rfl
    | some i =>
      rw [hi, Option.bind_some, held?_eq_some hi hnot] at h
      cases h
  case light => exact hlight
  case alone => simp

/-- An idiom, as half words hold it, can be taken up. -/
theorem exists_heads_of_some {opening : Nat}
    (h : (recognize? (⟨.beginLoop, opening⟩ :: rest)).bind held? = some held)
    (hlight : o = .crashes → ¬Overloads ((⟨.beginLoop, opening⟩ :: rest).map (·.command))) :
    ∃ x : Piece, x.phrase = .perform held.effect ∧ x.tokens.length = held.length ∧
      x.Heads o (⟨.beginLoop, opening⟩ :: rest) (rest.drop (held.length - 1)) := by
  obtain ⟨i, hi, hheld⟩ := Option.bind_eq_some_iff.mp h
  obtain ⟨hpos, hspelled⟩ := recognize?_spelled hi
  obtain ⟨text, htext, -, hlength⟩ := recognize?_eq_some_iff.mp hi
  have hle := htext.length_le
  rw [← hlength, List.length_map] at hle
  rw [length_of_held? hheld]
  obtain ⟨more, hmore⟩ : ∃ more, i.length = more + 1 := ⟨i.length - 1, by omega⟩
  rw [hmore] at hspelled hle ⊢
  rw [List.take_succ_cons] at hspelled
  rw [List.length_cons] at hle
  have htaken : (⟨.beginLoop, opening⟩ :: rest.take more).length = more + 1 := by
    rw [List.length_cons, List.length_take, Nat.min_eq_left (by omega)]
  have hbalanced : Balanced Token.bracket? (⟨.beginLoop, opening⟩ :: rest.take more) :=
    (balanced_map_iff (f := Token.command)).mp (hspelled.balanced rfl)
  have hbounded : held.effect.Bounded (more + 1) := by
    have := hspelled.bounded
    rw [List.length_map, htaken] at this
    exact bounded_of_held? this hheld
  refine ⟨⟨.perform held.effect, ⟨.beginLoop, opening⟩ :: rest.take more, hbalanced⟩, rfl, htaken,
    ?_⟩
  constructor
  case ahead_eq => exact congrArg (List.cons _) (List.take_append_drop more rest).symm
  case pos => exact Nat.succ_pos _
  case bounded =>
    intro effect heffect
    cases heffect
    exact htaken ▸ hbounded
  case wellFormed =>
    intro effect heffect
    cases heffect
    exact wellFormed_of_held? (Program.wellFormed_of_spelled hspelled) hheld
  case split_eq =>
    intro hnot
    obtain rfl : i = held := Option.some.inj ((held?_eq_some hi hnot).symm.trans hheld)
    rw [Phrase.split_cons, Phrase.start, hi]
    dsimp only
    rw [hmore]
  case light => exact hlight
  case alone => exact hspelled.not_beginLoop_mem_tail

end Idiom

namespace Pass

variable {p p' : Pass} {row more : List Piece}

/-! ## What a round does -/

/-- The invariant of a pass: the cursor is not past the end, the open loops have their starts, and
no number is greater than the number of tokens in front of the cursor. -/
structure Sound (tokens : List Token) (p : Pass) : Prop where
  cursor_le : p.cursor ≤ tokens.length
  opens : p.assembly.Opens
  bounded : p.assembly.Bounded p.cursor

theorem start_sound (tokens : List Token) : start.Sound tokens where
  cursor_le := Nat.zero_le _
  opens := fun _ h => absurd h List.not_mem_nil
  bounded := ⟨Nat.le_refl 0, Nat.le_refl 0, fun _ h => absurd h (Array.not_mem_empty _)⟩

/-- From `p` to `p'` the tokens of some pieces have been taken up, and these assembled. -/
structure Advances (o : Overflow) (tokens : List Token) (p p' : Pass) (row : List Piece) :
    Prop where
  cursor_eq : p'.cursor = p.cursor + (pieceTokens row).length
  pos : 0 < (pieceTokens row).length
  ahead_eq : tokens.drop p.cursor = pieceTokens row ++ tokens.drop p'.cursor
  assembled : p.assembly.addAll (row.map (·.phrase)) = .ok p'.assembly
  effects : ∀ effect, .perform effect ∈ row.map (·.phrase) → effect.WellFormed
  /-- The pieces are the phrases of the tokens. -/
  split_eq : ¬Idiom.Overloads ((tokens.drop p.cursor).map (·.command)) →
    Phrase.split (tokens.drop p.cursor) =
      row.map (·.phrase) ++ Phrase.split (tokens.drop p'.cursor)
  /-- No loop that adds too much has been passed. -/
  light : o = .crashes → ∀ index, p.cursor ≤ index → index < p'.cursor →
    ¬Idiom.Overloads ((tokens.drop index).map (·.command))
  sound : p'.Sound tokens

/-- The tokens ahead, told by the one at the cursor. -/
theorem exists_ahead (h : tokens[p.cursor]? = some first) :
    ∃ rest, tokens.drop p.cursor = first :: rest := by
  obtain ⟨hlt, hget⟩ := List.getElem?_eq_some_iff.mp h
  exact ⟨_, hget ▸ List.drop_eq_getElem_cons hlt⟩

theorem length_of_ahead (hahead : tokens.drop p.cursor = first :: rest) :
    p.cursor + (rest.length + 1) = tokens.length := by
  have hlength := congrArg List.length hahead
  rw [List.length_drop, List.length_cons] at hlength
  omega

/-- Nothing adds too much in some tokens that start no loop behind their first. -/
theorem light_of_alone {front behind : List Token} (hahead : tokens.drop p.cursor = front ++ behind)
    (hfirst : ¬Idiom.Overloads ((tokens.drop p.cursor).map (·.command)))
    (halone : .beginLoop ∉ (front.map (·.command)).tail) {index : Nat} (hle : p.cursor ≤ index)
    (hlt : index < p.cursor + front.length) :
    ¬Idiom.Overloads ((tokens.drop index).map (·.command)) := by
  obtain ⟨further, rfl⟩ := Nat.exists_eq_add_of_le hle
  rcases Nat.eq_zero_or_pos further with rfl | hpos
  · exact hfirst
  · rw [← List.drop_drop, hahead]
    exact not_overloads_within halone hpos (by omega)

/-- A row of pieces is taken up, if it is assembled with the loops open and the numbers bounded. -/
theorem advances_of_row (row : List Piece) {behind : List Token} (a : Assembly)
    (h : p.Sound tokens) (hahead : tokens.drop p.cursor = pieceTokens row ++ behind)
    (hpos : 0 < (pieceTokens row).length)
    (hadd : p.assembly.addAll (row.map (·.phrase)) = .ok a) (hopens : a.Opens)
    (hbounded : a.Bounded (p.cursor + (pieceTokens row).length))
    (heffects : ∀ effect, .perform effect ∈ row.map (·.phrase) → effect.WellFormed)
    (hsplit : ¬Idiom.Overloads ((tokens.drop p.cursor).map (·.command)) →
      Phrase.split (tokens.drop p.cursor) = row.map (·.phrase) ++ Phrase.split behind)
    (hlight : o = .crashes → ¬Idiom.Overloads ((tokens.drop p.cursor).map (·.command)))
    (halone : .beginLoop ∉ ((pieceTokens row).map (·.command)).tail) :
    Advances o tokens p ⟨p.cursor + (pieceTokens row).length, a⟩ row := by
  have hlength := congrArg List.length hahead
  rw [List.length_drop, List.length_append] at hlength
  have hcursor := h.cursor_le
  have hbehind : tokens.drop (p.cursor + (pieceTokens row).length) = behind := by
    rw [← List.drop_drop, hahead, List.drop_left' rfl]
  constructor
  case cursor_eq => rfl
  case pos => exact hpos
  case ahead_eq => rw [hbehind, hahead]
  case assembled => exact hadd
  case effects => exact heffects
  case split_eq =>
    rw [hbehind]
    exact hsplit
  case light =>
    intro ho index hle hlt
    exact light_of_alone hahead (hlight ho) halone hle hlt
  case sound =>
    refine ⟨?_, hopens, hbounded⟩
    show p.cursor + _ ≤ _
    omega

/-- A single piece is taken up. -/
theorem advances_of_heads {x : Piece} {behind : List Token} {a : Assembly} (h : p.Sound tokens)
    (hheads : x.Heads o (tokens.drop p.cursor) behind) (hadd : p.assembly.add x.phrase = .ok a) :
    Advances o tokens p ⟨p.cursor + x.tokens.length, a⟩ [x] := by
  have htokens : pieceTokens [x] = x.tokens := List.flatMap_singleton ..
  have hrow := advances_of_row (o := o) [x] a h (htokens ▸ hheads.ahead_eq)
  rw [htokens] at hrow
  refine hrow hheads.pos ((Assembly.addAll_singleton ..).trans hadd) (h.opens.add hadd)
    (h.bounded.add hheads.pos hheads.bounded hadd) ?_ hheads.split_eq hheads.light hheads.alone
  intro effect heffect
  exact hheads.wellFormed effect (List.mem_singleton.mp heffect).symm

/-- A run of moves is taken up. -/
theorem advances_of_moves {d : Direction} (h : p.Sound tokens)
    (hahead : tokens.drop p.cursor = first :: rest) (hfirst : first.command = .move d) :
    ∃ row, Advances o tokens p ⟨p.cursor + (Phrase.runLength (.move d) rest + 1),
      p.assembly.pending + d.unit * ((Phrase.runLength (.move d) rest + 1 : Nat) : Int),
      p.assembly.opened, p.assembly.code⟩ row := by
  have hrun : ∀ t ∈ (first :: rest).takeWhile (·.command = .move d), t.command = .move d :=
    fun t ht => of_decide_eq_true (List.all_eq_true.mp List.all_takeWhile t ht)
  have hcount : ((first :: rest).takeWhile (·.command = .move d)).length =
      Phrase.runLength (.move d) rest + 1 := Phrase.runLength_cons rest hfirst
  have hsplit := Phrase.split_moves d (first :: rest)
  have happend := List.takeWhile_append_dropWhile (p := fun t : Token => t.command = .move d)
    (l := first :: rest)
  rw [Phrase.runLength_cons rest hfirst] at hsplit
  generalize (first :: rest).takeWhile (·.command = .move d) = run at hrun hcount happend
  generalize (first :: rest).dropWhile (·.command = .move d) = behind at happend
  have htokens := pieceTokens_movePieces hrun
  have hbehind : (first :: rest).drop (Phrase.runLength (.move d) rest + 1) = behind := by
    rw [← happend, ← hcount, List.drop_left' rfl]
  have hwhole : tokens.drop p.cursor = pieceTokens (movePieces d run) ++ behind := by
    rw [htokens, happend, hahead]
  have hrow := fun a => advances_of_row (o := o) (movePieces d run) a h hwhole
  rw [htokens, hcount, map_phrase_movePieces, hcount] at hrow
  refine ⟨movePieces d run, hrow _ (Nat.succ_pos _) (p.assembly.addAll_moves d _) h.opens ?_ ?_ ?_
    ?_ ?_⟩
  case refine_1 =>
    have hbounded := h.bounded
    refine ⟨Nat.le_trans hbounded.size_le (Nat.le_add_right ..), ?_,
      fun o ho => (hbounded.opcodes o ho).mono (Nat.le_add_right ..)⟩
    have hpending := hbounded.pending_le
    show (p.assembly.pending + d.unit * _).natAbs ≤ p.cursor + _
    cases d <;> simp only [Direction.unit] <;> omega
  case refine_2 =>
    intro effect heffect
    cases List.eq_of_mem_replicate heffect
  case refine_3 =>
    intro _
    rw [hahead, ← hbehind]
    exact hsplit
  case refine_4 =>
    intro _
    rw [hahead, List.map_cons]
    exact Idiom.not_overloads_cons _ (by rw [hfirst]; simp)
  case refine_5 =>
    intro hmem
    obtain ⟨t, ht, hbegin⟩ := List.mem_map.mp (List.mem_of_mem_tail hmem)
    rw [hrun t ht] at hbegin
    cases hbegin

/-! ## What crashes, and what does not -/

section Operations

variable (h : p.Sound tokens) (hroom : ((tokens.length : Nat) : Int) ≤ greatestPosition)
  (hahead : tokens.drop p.cursor = first :: rest)

include hroom in
theorem skip_eq {count : Nat} (hcount : p.cursor + count ≤ tokens.length) :
    p.skip o count = .ok ⟨p.cursor + count, p.assembly⟩ := by
  rw [skip, o.held_word_of_le (by omega)]
  rfl

include h in
theorem ahead_eq : p.ahead tokens = .ok (tokens.drop p.cursor) := if_pos h.cursor_le

include h hroom hahead

theorem takeRun_eq : p.takeRun o tokens = .ok (Phrase.runLength first.command rest + 1,
    ⟨p.cursor + (Phrase.runLength first.command rest + 1), p.assembly⟩) := by
  have hfirst : tokens[p.cursor]? = some first := by
    rw [← List.head?_drop, hahead]
    rfl
  have hmore := Phrase.runLength_le first.command rest
  have hlength := length_of_ahead hahead
  rw [takeRun, hfirst]
  show (p.ahead tokens >>= fun ahead => _) = _
  rw [ahead_eq h, hahead]
  show (p.skip o (Phrase.runLength first.command (first :: rest)) >>= fun p => _) = _
  rw [Phrase.runLength_cons rest rfl, skip_eq hroom (by omega)]
  rfl

theorem hold_eq {d : Direction} (hfirst : first.command = .move d) :
    p.hold o tokens d = .ok ⟨p.cursor + (Phrase.runLength (.move d) rest + 1),
      p.assembly.pending + d.unit * ((Phrase.runLength (.move d) rest + 1 : Nat) : Int),
      p.assembly.opened, p.assembly.code⟩ := by
  have hmore := Phrase.runLength_le (.move d) rest
  have hlength := length_of_ahead hahead
  have hpending := h.bounded.pending_le
  have hsigned : signed (Phrase.runLength (.move d) rest + 1) =
      ((Phrase.runLength (.move d) rest + 1 : Nat) : Int) := signed_of_le (by omega)
  rw [hold, takeRun_eq h hroom hahead, hfirst]
  show (o.heldSigned (p.assembly.pending + d.unit * signed _) >>= fun pending => _) = _
  rw [hsigned, o.heldSigned_of_natAbs_le]
  · rfl
  · cases d <;> simp only [Direction.unit] <;> omega

theorem emitRun_eq (effect : Nat → Effect) : p.emitRun o tokens effect =
    .ok ⟨p.cursor + (Phrase.runLength first.command rest + 1),
      p.assembly.emit (.perform (effect (Phrase.runLength first.command rest + 1)))⟩ := by
  rw [emitRun, takeRun_eq h hroom hahead]
  rfl

omit h in
theorem emitOne_eq (effect : Effect) :
    p.emitOne o effect = .ok ⟨p.cursor + 1, p.assembly.emit (.perform effect)⟩ := by
  have hlength := length_of_ahead hahead
  rw [emitOne, skip_eq hroom (by omega)]
  rfl

omit hroom in
/-- A token that starts no loop takes up what the next phrase does. -/
theorem advances_of_start {a : Assembly} (hfirst : first.command ≠ .beginLoop)
    (hadd : p.assembly.add (Phrase.start first rest).1 = .ok a) :
    Advances o tokens p ⟨p.cursor + ((Phrase.start first rest).2 + 1), a⟩
      [(Stretch.ofStart first rest).piece] := by
  have hheads := Stretch.heads (o := o) first rest fun _ => Idiom.not_overloads_cons _ hfirst
  rw [← hahead] at hheads
  rw [← Stretch.length_ofStart]
  exact advances_of_heads h hheads hadd

omit h in
/-- What is taken up is skipped. -/
theorem skip_of_heads {x : Piece} {behind : List Token}
    (hheads : x.Heads o (first :: rest) behind) :
    p.skip o x.tokens.length = .ok ⟨p.cursor + x.tokens.length, p.assembly⟩ := by
  have hlength := congrArg List.length hheads.ahead_eq
  rw [List.length_cons, List.length_append] at hlength
  have hwhole := length_of_ahead hahead
  exact skip_eq hroom (by omega)

section Loops

variable {x : Piece} {behind : List Token} (hheads : x.Heads o (first :: rest) behind)

include hheads

theorem beginLoop_of_none (hfound : Idiom.recognizeInWords? o (first :: rest) = .ok none)
    (hx : x.tokens.length = 1) (offset : Nat) : p.beginLoop o tokens offset =
      .ok ⟨p.cursor + x.tokens.length, p.assembly.beginLoop offset⟩ := by
  rw [beginLoop, ahead_eq h, hahead]
  show (Idiom.recognizeInWords? o (first :: rest) >>= fun found => _) = _
  rw [hfound]
  show (p.skip o 1 >>= fun p => _) = _
  rw [← hx, skip_of_heads hroom hahead hheads]
  rfl

theorem beginLoop_of_some {i : Idiom}
    (hfound : Idiom.recognizeInWords? o (first :: rest) = .ok (some i))
    (hx : x.tokens.length = i.length) (offset : Nat) : p.beginLoop o tokens offset =
      .ok ⟨p.cursor + x.tokens.length, p.assembly.emit (.perform i.effect)⟩ := by
  rw [beginLoop, ahead_eq h, hahead]
  show (Idiom.recognizeInWords? o (first :: rest) >>= fun found => _) = _
  rw [hfound]
  show (p.skip o i.length >>= fun p => _) = _
  rw [← hx, skip_of_heads hroom hahead hheads]
  rfl

end Loops

omit hroom in
theorem beginLoop_of_error {crash : Crash}
    (hfound : Idiom.recognizeInWords? o (first :: rest) = .error crash) (offset : Nat) :
    p.beginLoop o tokens offset = .error crash := by
  rw [beginLoop, ahead_eq h, hahead]
  show (Idiom.recognizeInWords? o (first :: rest) >>= fun found => _) = _
  rw [hfound]
  rfl

/-- An idiom or the start of a loop is emitted, unless the loop adds too much. -/
theorem beginLoop_cases {offset : Nat} (hfirst : first = ⟨.beginLoop, offset⟩) :
    (∃ p' row, p.beginLoop o tokens offset = .ok p' ∧ Advances o tokens p p' row) ∨
      o = .crashes ∧ Idiom.Overloads ((tokens.drop p.cursor).map (·.command)) ∧
        p.beginLoop o tokens offset = .error .overflow := by
  have hlength := length_of_ahead hahead
  have hwindow : (((first :: rest).length : Nat) : Int) ≤ greatestPosition := by
    rw [List.length_cons]
    omega
  subst hfirst
  rcases Idiom.recognizeInWords?_cases (o := o) hwindow with ⟨hfound, hlight⟩ | ⟨ho, hover, hfound⟩
  · cases hheld : (Idiom.recognize? (⟨.beginLoop, offset⟩ :: rest)).bind Idiom.held? with
    | none =>
      rw [hheld] at hfound
      obtain ⟨x, hphrase, hx, hheads⟩ := Idiom.exists_heads_of_none hheld hlight
      exact Or.inl ⟨_, _, beginLoop_of_none h hroom hahead hheads hfound hx offset,
        advances_of_heads h (hahead ▸ hheads) (by rw [hphrase]; rfl)⟩
    | some held =>
      rw [hheld] at hfound
      obtain ⟨x, hphrase, hx, hheads⟩ := Idiom.exists_heads_of_some hheld hlight
      exact Or.inl ⟨_, _, beginLoop_of_some h hroom hahead hheads hfound hx offset,
        advances_of_heads h (hahead ▸ hheads) (by rw [hphrase]; rfl)⟩
  · exact Or.inr ⟨ho, hahead ▸ hover, beginLoop_of_error h hahead hfound offset⟩

omit h hroom hahead in
/-- Where there is the start of a loop, its partner is filled in. -/
theorem fillIn_eq {index partner before : Nat} {move : Int} {code : Array Opcode}
    (hstart : code[index]? = some ⟨move, .beginLoop before⟩) :
    fillIn index partner code =
      .ok (code.modify index fun opcode => { opcode with action := .beginLoop partner }) := by
  obtain ⟨hlt, -⟩ := Array.getElem?_eq_some_iff.mp hstart
  rw [fillIn, hstart]
  show Except.ok _ = _
  rw [Except.ok.injEq]
  apply Array.ext_getElem?
  intro i
  rw [Array.getElem?_setIfInBounds, Array.getElem?_modify]
  by_cases hi : index = i
  · rw [if_pos hi, if_pos hi, if_pos hlt, ← hi, hstart]
    rfl
  · rw [if_neg hi, if_neg hi]

theorem endLoop_eq {innermost : OpenLoop} {opened : List OpenLoop} (offset : Nat)
    (hopened : p.assembly.opened = innermost :: opened) :
    ∃ a, p.assembly.add (.endLoop offset) = .ok a ∧
      p.endLoop o innermost.index opened = .ok ⟨p.cursor + 1, a⟩ := by
  have hlength := length_of_ahead hahead
  obtain ⟨move, before, hstart⟩ := h.opens innermost (hopened ▸ List.mem_cons_self)
  obtain ⟨cursor, pending, open', code⟩ := p
  cases hopened
  refine ⟨_, rfl, ?_⟩
  rw [endLoop]
  show (fillIn innermost.index code.size code >>= fun code => _) = _
  rw [fillIn_eq hstart]
  show (skip o 1 _ >>= fun p => _) = _
  rw [skip_eq hroom (by omega)]
  rfl

end Operations

/-- **A round takes up the next pieces, or reports what is wrong with the text**, or crashes at a
loop that adds too much. -/
theorem round_cases (h : p.Sound tokens)
    (hroom : ((tokens.length : Nat) : Int) ≤ greatestPosition)
    (hfirst : tokens[p.cursor]? = some first) :
    (∃ p' row, p.round o tokens first = .ok p' ∧ Advances o tokens p p' row) ∨
    (∃ offset, first = ⟨.endLoop, offset⟩ ∧ p.assembly.opened = [] ∧
      p.round o tokens first = .error (.reported ⟨.closing, offset⟩)) ∨
    o = .crashes ∧ Idiom.Overloads ((tokens.drop p.cursor).map (·.command)) ∧
      p.round o tokens first = .error (.crashed .overflow) := by
  obtain ⟨rest, hahead⟩ := exists_ahead hfirst
  -- all rounds but those over moves and loops take up one phrase
  have hone : first.command ≠ .beginLoop → ∀ a, p.assembly.add (Phrase.start first rest).1 = .ok a →
      p.round o tokens first = .ok ⟨p.cursor + ((Phrase.start first rest).2 + 1), a⟩ →
      ∃ p' row, p.round o tokens first = .ok p' ∧ Advances o tokens p p' row :=
    fun hbegin a hadd hround => ⟨_, _, hround, advances_of_start h hahead hbegin hadd⟩
  obtain ⟨c, offset⟩ := first
  cases c with
  | move d =>
    obtain ⟨row, hadvances⟩ := advances_of_moves (o := o) h hahead rfl
    refine Or.inl ⟨_, row, ?_, hadvances⟩
    show (p.hold o tokens d).mapError Failure.crashed = _
    rw [hold_eq h hroom hahead rfl]
    rfl
  | increment =>
    refine Or.inl (hone (by simp) _ rfl ?_)
    show (p.emitRun o tokens .add).mapError Failure.crashed = _
    rw [emitRun_eq h hroom hahead]
    rfl
  | decrement =>
    refine Or.inl (hone (by simp) _ rfl ?_)
    show (p.emitRun o tokens .sub).mapError Failure.crashed = _
    rw [emitRun_eq h hroom hahead]
    rfl
  | read =>
    refine Or.inl (hone (by simp) _ rfl ?_)
    show (p.emitOne o .read).mapError Failure.crashed = _
    rw [emitOne_eq hroom hahead]
    rfl
  | write =>
    refine Or.inl (hone (by simp) _ rfl ?_)
    show (p.emitOne o .write).mapError Failure.crashed = _
    rw [emitOne_eq hroom hahead]
    rfl
  | beginLoop =>
    rcases beginLoop_cases (o := o) h hroom hahead rfl with
      ⟨p', row, hbegin, hadvances⟩ | ⟨ho, hover, hbegin⟩
    · refine Or.inl ⟨p', row, ?_, hadvances⟩
      show (p.beginLoop o tokens offset).mapError Failure.crashed = _
      rw [hbegin]
      rfl
    · refine Or.inr (Or.inr ⟨ho, hover, ?_⟩)
      show (p.beginLoop o tokens offset).mapError Failure.crashed = _
      rw [hbegin]
      rfl
  | endLoop =>
    cases hopened : p.assembly.opened with
    | nil =>
      refine Or.inr (Or.inl ⟨offset, rfl, rfl, ?_⟩)
      rw [round, hopened]
    | cons innermost opened =>
      obtain ⟨a, hadd, hend⟩ := endLoop_eq (o := o) h hroom hahead offset hopened
      refine Or.inl (hone (by simp) a hadd ?_)
      rw [round, hopened]
      show (p.endLoop o innermost.index opened).mapError Failure.crashed = _
      rw [hend]
      rfl

end Pass

end Brainfuck
