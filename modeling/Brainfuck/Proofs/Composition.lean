import Brainfuck.Proofs.Acceptance
import Brainfuck.Proofs.Places
import Brainfuck.Proofs.Relabelling
import Brainfuck.Proofs.WellFormed
import Mathlib.Data.List.DropRight

/-!
# A text is compiled piece by piece

Main result: `Program.compile_compositional`. The program of two balanced texts, one behind the
other, is that of the first and behind it that of the second, with its partners moved on and with
the last moves of the first text carried into its first opcode. The program of a loop is that of its
body between the two ends of the loop, unless the loop is an idiom.

There is one place where two texts must not meet: within a run of the same arithmetic command
(`SplitsRun`), since a run is compiled as a whole.

The argument has two parts. Phrases do not reach over a piece: a text that is balanced up to some
place is cut there (`Phrase.split_append`), because an idiom ends with the bracket that its first
bracket is closed by (`Idiom.recognize?_append`). And a piece of the phrases is assembled into the
same opcodes wherever it stands, but for its partners and its first move (`Program.get?_within`).
-/

namespace Brainfuck

/-- What the command adds to the cursor. -/
def Command.displacement : Command → Int
  | move d => d.unit
  | _ => 0

/-- The command is a move. -/
def Command.isMove : Command → Bool
  | move _ => true
  | _ => false

/-- What the moves behind the last command that is no move add up to. -/
def trail (commands : List Command) : Int :=
  ((commands.rtakeWhile Command.isMove).map Command.displacement).sum

/-- The two rows of commands meet within a run of the same arithmetic command. -/
def SplitsRun (front behind : List Command) : Prop :=
  (front.getLast? = some .increment ∧ behind.head? = some .increment) ∨
    (front.getLast? = some .decrement ∧ behind.head? = some .decrement)

/-- The action with its partner `count` places further on. -/
def Action.relocate (count : Nat) : Action → Action
  | perform effect => perform effect
  | beginLoop partner => beginLoop (count + partner)
  | endLoop partner => endLoop (count + partner)

/-- The opcodes of the program behind `count` others, where moves that add up to `move` come just in
front of them. -/
def Program.placed (p : Program) (count : Nat) (move : Int) : Array Opcode :=
  p.code.mapIdx fun i o => ⟨(if i = 0 then move else 0) + o.move, o.action.relocate count⟩

/-! ## Trails -/

theorem trail_concat_move (commands : List Command) (d : Direction) :
    trail (commands ++ [.move d]) = trail commands + d.unit := by
  rw [trail, List.rtakeWhile_concat_pos _ _ _ rfl, List.map_append, List.sum_append,
    List.map_singleton, List.sum_singleton]
  rfl

theorem trail_eq_zero {commands : List Command} (h : ∀ d, commands.getLast? ≠ some (.move d)) :
    trail commands = 0 := by
  rcases List.eq_nil_or_concat commands with rfl | ⟨front, c, rfl⟩
  · rfl
  · rw [List.concat_eq_append] at h ⊢
    have hc : ¬c.isMove := by
      cases c with
      | move d => exact absurd List.getLast?_concat (h d)
      | _ => exact Bool.false_ne_true
    rw [trail, List.rtakeWhile_concat_neg _ _ _ hc]
    rfl

/-- What phrases hold back is the trail of their commands. -/
theorem carried_eq_trail (tokens : List Token) :
    carried (Phrase.split tokens) = trail (tokens.map (·.command)) := by
  rw [← map_phrase_stretches, ← rowCommands_stretches]
  induction stretches tokens using List.reverseRecOn with
  | nil => rfl
  | append_singleton row x ih =>
    rw [List.map_append, List.map_singleton, carried_concat, rowCommands_append, rowCommands_cons,
      rowCommands_nil, List.append_nil]
    cases hphrase : x.phrase with
    | move d => rw [Stretch.commands_of_move hphrase, trail_concat_move, ← ih]; rfl
    | _ =>
      refine (trail_eq_zero fun d hlast => ?_).symm
      rw [List.getLast?_append_of_ne_nil _ x.commands_ne_nil] at hlast
      have hspelled := x.spelled
      rw [hphrase] at hspelled
      have hmove := hspelled.of_getLast_move hlast
      rw [hmove] at hspelled
      cases hspelled

/-! ## Phrases do not reach over a piece -/

/-- The last command of the tokens behind a part of a piece is that of the piece. -/
theorem SplitsRun.of_append {front tokens behind : List Command} (h : SplitsRun tokens behind) :
    SplitsRun (front ++ tokens) behind := by
  have hlast : ∀ {c : Command}, tokens.getLast? = some c →
      (front ++ tokens).getLast? = some c := fun hc => by rw [List.getLast?_append, hc]; rfl
  exact h.imp (And.imp_left hlast) (And.imp_left hlast)

namespace Idiom

/-- Between the brackets of an idiom there is a balanced row. -/
theorem Shape.exists_body {text : List Command} {effect : Effect} (h : Shape text effect) :
    ∃ body, text = .beginLoop :: body ++ [.endLoop] ∧ Balanced Command.bracket? body := by
  cases h with
  | clearDown => exact ⟨[.decrement], rfl, balanced_singleton rfl⟩
  | clearUp => exact ⟨[.increment], rfl, balanced_singleton rfl⟩
  | scan d => exact ⟨[.move d], rfl, balanced_singleton rfl⟩
  | @copy d walk targets hfirst hwalk hadds htargets hordered =>
    refine ⟨.decrement :: (walk ++ List.replicate (walk.count (.move d)) (.move d.opposite)), ?_,
      balanced_of_forall_none ?_⟩
    · simp only [copyText, List.cons_append, List.nil_append, List.append_assoc]
    · intro c hc
      simp only [List.mem_cons, List.mem_append, List.mem_replicate] at hc
      rcases hc with rfl | hc | ⟨-, rfl⟩
      · rfl
      · rcases hwalk c hc with rfl | rfl <;> rfl
      · rfl

/-- An idiom ends with the bracket that closes its first one. -/
theorem Shape.eq_of_prefix {text body behind : List Command} {effect : Effect}
    (h : Shape text effect) (hbody : Balanced Command.bracket? body)
    (htext : text <+: .beginLoop :: (body ++ .endLoop :: behind)) :
    text = .beginLoop :: body ++ [.endLoop] := by
  obtain ⟨body', rfl, hbody'⟩ := h.exists_body
  obtain ⟨more, hmore⟩ := htext
  rw [List.cons_append, List.cons_append, List.cons.injEq, List.append_assoc] at hmore
  rw [hbody'.eq_of_append_eq hbody rfl rfl hmore.2]

/-- **An idiom is looked for in its own loop only**, so what follows a balanced row does not matter
to the idioms of that row. -/
theorem recognize?_append {front : List Command} {first : Token} {rest : List Token}
    (hfirst : first.command = .beginLoop)
    (h : Balanced Command.bracket? (front ++ (first :: rest).map (·.command)))
    (behind : List Token) : recognize? (first :: (rest ++ behind)) = recognize? (first :: rest) := by
  rw [List.map_cons, hfirst] at h
  obtain ⟨body, closing, more, hrest, hclosing, hbody⟩ := h.exists_end rfl
  obtain rfl : closing = .endLoop := by
    cases closing with
    | endLoop => rfl
    | _ => cases hclosing
  apply Option.ext
  intro i
  rw [recognize?_eq_some_iff, recognize?_eq_some_iff]
  refine exists_congr fun text => ⟨?_, ?_⟩
  · rintro ⟨htext, hshape, hlength⟩
    rw [List.map_cons, List.map_append, hfirst, hrest, List.append_assoc, List.cons_append] at htext
    refine ⟨⟨more, ?_⟩, hshape, hlength⟩
    rw [hshape.eq_of_prefix hbody htext, List.map_cons, hfirst, hrest]
    simp only [List.cons_append, List.append_assoc, List.nil_append]
  · rintro ⟨htext, hshape, hlength⟩
    refine ⟨htext.trans ?_, hshape, hlength⟩
    rw [← List.cons_append, List.map_append]
    exact List.prefix_append _ _

end Idiom

namespace Phrase

/-- A run is as long as it is, unless it goes on behind the piece. -/
theorem runLength_append {c : Command} {rest behind : List Token}
    (h : (∀ t ∈ rest, t.command = c) → (behind.map (·.command)).head? ≠ some c) :
    runLength c (rest ++ behind) = runLength c rest := by
  rw [runLength, runLength, List.takeWhile_append]
  split
  · next hall =>
    have hwhole := (List.takeWhile_prefix _).eq_of_length hall
    have hrest : ∀ t ∈ rest, t.command = c := by
      intro t ht
      rw [← hwhole] at ht
      exact of_decide_eq_true (List.all_eq_true.mp List.all_takeWhile t ht)
    have hnone : behind.takeWhile (fun t => decide (t.command = c)) = [] := by
      cases behind with
      | nil => rfl
      | cons next behind =>
        refine List.takeWhile_cons_of_neg fun hnext => h hrest ?_
        rw [List.map_cons, of_decide_eq_true hnext]
        rfl
    rw [hnone, List.append_nil, hwhole]
  · rfl

/-- A run that has come to the end of its piece ends with it. -/
theorem head?_ne_of_run {c : Command} {first : Token} {rest behind : List Token}
    (hc : c = .increment ∨ c = .decrement) (hfirst : first.command = c)
    (hseam : ¬SplitsRun ((first :: rest).map (·.command)) (behind.map (·.command)))
    (hrest : ∀ t ∈ rest, t.command = c) : (behind.map (·.command)).head? ≠ some c := by
  intro hhead
  have hall : (first :: rest).map (·.command) = List.replicate (rest.length + 1) c := by
    refine List.eq_replicate_iff.mpr ⟨by rw [List.length_map, List.length_cons], ?_⟩
    intro c' hc'
    obtain ⟨t, ht, rfl⟩ := List.mem_map.mp hc'
    rcases List.mem_cons.mp ht with rfl | ht
    · exact hfirst
    · exact hrest t ht
  have hlast : ((first :: rest).map (·.command)).getLast? = some c := by
    rw [hall, List.getLast?_replicate, if_neg (Nat.succ_ne_zero _)]
  rcases hc with rfl | rfl
  · exact hseam (Or.inl ⟨hlast, hhead⟩)
  · exact hseam (Or.inr ⟨hlast, hhead⟩)

/-- The phrase at the front of a piece is what it is, whatever follows the piece. -/
theorem start_append {front : List Command} {first : Token} {rest behind : List Token}
    (h : Balanced Command.bracket? (front ++ (first :: rest).map (·.command)))
    (hseam : ¬SplitsRun ((first :: rest).map (·.command)) (behind.map (·.command))) :
    start first (rest ++ behind) = start first rest := by
  obtain ⟨command, offset⟩ := first
  cases command with
  | move d | read | write | endLoop => rfl
  | increment =>
    rw [start, start]
    dsimp only
    rw [runLength_append (head?_ne_of_run (Or.inl rfl) rfl hseam)]
  | decrement =>
    rw [start, start]
    dsimp only
    rw [runLength_append (head?_ne_of_run (Or.inr rfl) rfl hseam)]
  | beginLoop =>
    rw [start, start]
    dsimp only
    rw [Idiom.recognize?_append rfl h behind]

/-- **A balanced piece is cut as if nothing followed it.** What is cut off so far goes to `front`, so
that the brackets of `front` and of the rest of the piece stay balanced together. -/
theorem split_append (front : List Command) {tokens behind : List Token}
    (h : Balanced Command.bracket? (front ++ tokens.map (·.command)))
    (hseam : ¬SplitsRun (tokens.map (·.command)) (behind.map (·.command))) :
    split (tokens ++ behind) = split tokens ++ split behind := by
  induction hlength : tokens.length using Nat.strongRecOn generalizing tokens front with
  | ind n ih =>
    subst hlength
    cases tokens with
    | nil => rw [split_nil, List.nil_append, List.nil_append]
    | cons first rest =>
      have hle := start_le first rest
      rw [List.cons_append, split_cons, split_cons, start_append h hseam,
        List.drop_append_of_le_length hle, List.cons_append]
      generalize (start first rest).2 = more at hle
      have hcut : (first :: rest).map (·.command) =
          (first :: rest.take more).map (·.command) ++ (rest.drop more).map (·.command) := by
        rw [← List.map_append, List.cons_append, List.take_append_drop]
      rw [hcut] at h hseam
      rw [← List.append_assoc] at h
      have hshort : (rest.drop more).length < (first :: rest).length := by
        rw [List.length_drop, List.length_cons]
        omega
      rw [ih _ hshort _ h (fun hsplits => hseam hsplits.of_append) rfl]

end Phrase

/-! ## Opcodes of a piece -/

theorem carried_append (front behind : List Phrase) :
    carried (front ++ behind) = (if opcodeCount behind = 0 then carried front else 0) +
      carried behind := by
  induction behind using List.reverseRecOn with
  | nil => simp [opcodeCount, carried]
  | append_singleton behind phrase ih =>
    rw [← List.append_assoc, carried_concat, carried_concat, ih, opcodeCount_append]
    cases phrase with
    | move d =>
      have hcount : opcodeCount [Phrase.move d] = 0 := rfl
      rw [hcount, Nat.add_zero]
      exact Int.add_assoc ..
    | _ => simp [opcodeCount, Phrase.makesOpcode, Phrase.carry]

namespace Program

theorem get?_placed {p : Program} {count : Nat} {move : Int} {index : Nat} :
    (p.placed count move)[index]? = (p.get? index).map fun o =>
      ⟨(if index = 0 then move else 0) + o.move, o.action.relocate count⟩ := by
  rw [placed, Array.getElem?_mapIdx]
  rfl

theorem size_placed {p : Program} {count : Nat} {move : Int} :
    (p.placed count move).size = p.size := by
  rw [placed, Array.size_mapIdx, size]

/-- With nothing in front of it, a program stands where it stands. -/
theorem placed_zero (p : Program) : p.placed 0 0 = p.code := by
  refine Array.ext_getElem? fun index => ?_
  rw [get?_placed, get?]
  cases p.code[index]? with
  | none => rfl
  | some o =>
    obtain ⟨move, action⟩ := o
    have hmove : (if index = 0 then 0 else 0) + move = move := by rw [ite_self, Int.zero_add]
    have haction : action.relocate 0 = action := by
      cases action <;> simp only [Action.relocate, Nat.zero_add]
    rw [Option.map_some, hmove, haction]

/-- **The opcodes of a piece**, wherever it stands among the phrases. -/
theorem get?_within {front piece behind : List Phrase} {p q : Program}
    (hp : ofPhrases (front ++ piece ++ behind) = .ok p) (hq : ofPhrases piece = .ok q)
    {index : Nat} (hindex : index < q.size) :
    p.get? (opcodeCount front + index) =
      (q.placed (opcodeCount front) (carried front))[index]? := by
  obtain ⟨⟨move, action⟩, hget⟩ : ∃ o, q.get? index = some o := by
    refine Option.ne_none_iff_exists'.mp fun hnone => ?_
    exact Nat.not_lt.mpr (get?_eq_none_iff.mp hnone) hindex
  rw [get?_placed, hget, Option.map_some]
  rcases get?_cases hq (balanced_of_ofPhrases hq) hget with
    ⟨inner, effect, rest, rfl, rfl, rfl, rfl⟩ | ⟨inner, body, ⟨hbody, start, stop, rest, rfl⟩, hends⟩
  · simp only [List.append_assoc, List.cons_append] at hp
    rw [← List.append_assoc] at hp
    rw [← opcodeCount_append, get?_effect hp, carried_append]
    rfl
  · simp only [List.append_assoc, List.cons_append] at hp
    rw [← List.append_assoc] at hp
    obtain ⟨hstart, hstop⟩ := get?_loop hp hbody
    rcases hends with ⟨rfl, rfl, rfl⟩ | ⟨rfl, rfl, rfl⟩
    · rw [← opcodeCount_append, hstart, carried_append, opcodeCount_append]
      simp only [Action.relocate, Nat.add_assoc]
    · rw [opcodeCount_append] at hstop
      rw [if_neg (by omega), Int.zero_add, ← Nat.add_assoc, ← Nat.add_assoc, hstop]
      rfl

/-- The program of two rows of phrases, one behind the other. -/
theorem ofPhrases_append {front behind : List Phrase} {p q : Program}
    (hp : ofPhrases front = .ok p) (hq : ofPhrases behind = .ok q) :
    ofPhrases (front ++ behind) = .ok ⟨p.code ++ q.placed p.size (carried front)⟩ := by
  obtain ⟨r, hr⟩ := ofPhrases_of_balanced
    ((balanced_of_ofPhrases hp).append (balanced_of_ofPhrases hq))
  have hsize := size_of_ofPhrases hr
  rw [opcodeCount_append, ← size_of_ofPhrases hp, ← size_of_ofPhrases hq] at hsize
  have hfront : ∀ index < p.size, r.get? index = p.get? index := by
    intro index hindex
    have hr' : ofPhrases ([] ++ front ++ behind) = .ok r := hr
    have hpiece := get?_within hr' hp hindex
    change r.get? (0 + index) = (p.placed 0 0)[index]? at hpiece
    rwa [Nat.zero_add, placed_zero] at hpiece
  have hbehind : ∀ index < q.size,
      r.get? (p.size + index) = (q.placed p.size (carried front))[index]? := by
    intro index hindex
    have hpiece : ofPhrases (front ++ behind ++ []) = .ok r := by rw [List.append_nil, hr]
    rw [size_of_ofPhrases hp]
    exact get?_within hpiece hq hindex
  rw [hr]
  refine congrArg Except.ok (congrArg Program.mk (Array.ext_getElem? fun index => ?_))
  rw [Array.getElem?_append]
  split
  · next hindex => exact hfront index hindex
  · next hindex =>
    obtain ⟨more, rfl⟩ : ∃ more, index = p.size + more :=
      ⟨index - p.size, by have : p.size ≤ index := Nat.le_of_not_lt hindex; omega⟩
    show r.get? _ = (q.placed p.size (carried front))[p.size + more - p.size]?
    rw [Nat.add_sub_cancel_left]
    by_cases hmore : more < q.size
    · exact hbehind more hmore
    · rw [get?_eq_none_iff.mpr (by omega), Array.getElem?_eq_none (by rw [size_placed]; omega)]

/-- The program of a loop that is no idiom. -/
theorem ofPhrases_enclose {body : List Phrase} {p : Program} (hp : ofPhrases body = .ok p)
    (start stop : Nat) :
    ofPhrases (.beginLoop start :: (body ++ [.endLoop stop])) =
      .ok ⟨#[⟨0, .beginLoop (p.size + 1)⟩] ++ p.placed 1 0 ++ #[⟨carried body, .endLoop 0⟩]⟩ := by
  have hbody := balanced_of_ofPhrases hp
  obtain ⟨r, hr⟩ := ofPhrases_of_balanced (hbody.enclose (x := .beginLoop start)
    (y := .endLoop stop) rfl rfl)
  rw [List.cons_append] at hr
  have hcount : opcodeCount body = p.size := (size_of_ofPhrases hp).symm
  have hsize : r.size = p.size + 2 := by
    rw [size_of_ofPhrases hr, opcodeCount_cons_of_makesOpcode rfl, opcodeCount_append, hcount]
    rfl
  have hloop : ofPhrases ([] ++ .beginLoop start :: (body ++ .endLoop stop :: [])) = .ok r := hr
  have hpiece : ofPhrases ([.beginLoop start] ++ body ++ [.endLoop stop]) = .ok r := hr
  obtain ⟨hfirst, hlast⟩ := get?_loop hloop hbody
  have hinner : ∀ index < p.size, r.get? (1 + index) = (p.placed 1 0)[index]? :=
    fun index hindex => get?_within hpiece hp hindex
  have hnil : opcodeCount [] = 0 := rfl
  rw [hcount, hnil, Nat.zero_add, Nat.add_comm] at hfirst hlast
  rw [hr]
  refine congrArg Except.ok (congrArg Program.mk (Array.ext_getElem? fun index => ?_))
  rw [Array.getElem?_append, Array.getElem?_append, Array.size_append, size_placed]
  show r.get? index = if index < 1 + p.size then
    (if index < 1 then #[(⟨0, .beginLoop (p.size + 1)⟩ : Opcode)][index]?
      else (p.placed 1 0)[index - 1]?)
    else #[(⟨carried body, .endLoop 0⟩ : Opcode)][index - (1 + p.size)]?
  rcases Nat.lt_trichotomy index (1 + p.size) with hlt | rfl | hgt
  · rw [if_pos hlt]
    cases index with
    | zero => exact hfirst
    | succ index =>
      rw [if_neg (by omega), Nat.add_sub_cancel, Nat.add_comm]
      exact hinner index (by omega)
  · rw [if_neg (Nat.lt_irrefl _), Nat.sub_self, Nat.add_comm]
    exact hlast
  · rw [if_neg (by omega), get?_eq_none_iff.mpr (by omega), Array.getElem?_eq_none]
    show 1 ≤ index - (1 + p.size)
    omega

/-! ## Tokens -/

theorem ofTokens_append {front behind : List Token} {p q : Program}
    (hfront : Balanced Command.bracket? (front.map (·.command)))
    (hseam : ¬SplitsRun (front.map (·.command)) (behind.map (·.command)))
    (hp : ofTokens front = .ok p) (hq : ofTokens behind = .ok q) :
    ofTokens (front ++ behind) = .ok ⟨p.code ++ q.placed p.size (trail (front.map (·.command)))⟩ := by
  have hsplit := Phrase.split_append [] hfront hseam
  rw [ofTokens, hsplit, ofPhrases_append hp hq, carried_eq_trail]

section Enclosed

variable {opening closing : Token} {body : List Token} {p : Program}
  (hopening : opening.command = .beginLoop) (hclosing : closing.command = .endLoop)
  (hbody : Balanced Command.bracket? (body.map (·.command)))

include hopening hclosing hbody

theorem ofTokens_enclose (hp : ofTokens body = .ok p)
    (hnone : Idiom.recognize? (opening :: (body ++ [closing])) = none) :
    ofTokens (opening :: (body ++ [closing])) =
      .ok ⟨#[⟨0, .beginLoop (p.size + 1)⟩] ++ p.placed 1 0 ++
        #[⟨trail (body.map (·.command)), .endLoop 0⟩]⟩ := by
  obtain ⟨_, start⟩ := opening
  obtain ⟨_, stop⟩ := closing
  cases hopening
  cases hclosing
  have hstart : Phrase.start ⟨.beginLoop, start⟩ (body ++ [⟨.endLoop, stop⟩]) =
      (.beginLoop start, 0) := by
    rw [Phrase.start]
    dsimp only
    rw [hnone]
  have hseam : ¬SplitsRun (body.map (·.command))
      ([⟨.endLoop, stop⟩].map fun t : Token => t.command) := by
    rintro (⟨-, h⟩ | ⟨-, h⟩) <;> cases h
  have hstop : Phrase.split [⟨.endLoop, stop⟩] = [.endLoop stop] := by
    rw [Phrase.split_cons]
    exact congrArg _ Phrase.split_nil
  rw [ofTokens, Phrase.split_cons, hstart, List.drop_zero, Phrase.split_append [] hbody hseam, hstop,
    ofPhrases_enclose hp, carried_eq_trail]

/-- An idiom takes up the whole of its loop. -/
theorem ofTokens_idiom {i : Idiom}
    (hsome : Idiom.recognize? (opening :: (body ++ [closing])) = some i) :
    ofTokens (opening :: (body ++ [closing])) = .ok ⟨#[i.opcode 0]⟩ := by
  obtain ⟨text, htext, hshape, hlength⟩ := Idiom.recognize?_eq_some_iff.mp hsome
  rw [List.map_cons, List.map_append, List.map_singleton, hopening, hclosing] at htext
  rw [hshape.eq_of_prefix hbody htext] at hlength
  have hstart : Phrase.start opening (body ++ [closing]) =
      (.perform i.effect, (body ++ [closing]).length) := by
    rw [Phrase.start, hopening]
    dsimp only
    rw [hsome]
    show (Phrase.perform i.effect, i.length - 1) = _
    rw [hlength]
    simp
  rw [ofTokens, Phrase.split_cons, hstart, List.drop_length, Phrase.split_nil]
  rfl

end Enclosed

end Program

/-! ## Texts -/

/-- The tokens of a text behind another stand behind its bytes. -/
theorem Lexer.tokens_append (a b : String) :
    (ofText (a ++ b)).tokens =
      (ofText a).tokens ++ (ofText b).tokens.map (Token.relabel (· + a.toUTF8.toList.length)) := by
  have hbytes : (a ++ b).toUTF8.toList = a.toUTF8.toList ++ b.toUTF8.toList := by
    have happend : (a ++ b).toUTF8 = a.toUTF8 ++ b.toUTF8 := String.toByteArray_append
    rw [happend, toList_eq_data, toList_eq_data, toList_eq_data, ByteArray.data_append,
      Array.toList_append]
  rw [tokens_ofText, tokens_ofText, tokens_ofText, hbytes, tokensFrom_append, tokensFrom_add]

/-- A text whose bytes are balanced has balanced commands. -/
theorem balanced_commandsOf {text : String} (h : Balanced byteBracket? text.toUTF8.toList) :
    Balanced Command.bracket? (Plain.commandsOf text) := by
  obtain ⟨p, hp⟩ := (Program.compile_eq_ok_iff text).mpr h
  rcases Program.ofTokens_cases (Lexer.ofText text).tokens with
    ⟨htokens, -⟩ | ⟨_, _, -, herror⟩ | ⟨_, _, -, herror⟩
  · exact (balanced_map_iff (f := Token.command)).mpr htokens
  · cases hp.symm.trans herror
  · cases hp.symm.trans herror

namespace Program

/-- **Compilation is compositional.** Two balanced texts that do not meet within a run compile, one
behind the other, to the opcodes of the first and those of the second in their new place. A balanced
text between brackets compiles to the ends of a loop around its opcodes, or, if the whole is an
idiom, to the opcode of the idiom. -/
theorem compile_compositional :
    (∀ a b : String,
      Balanced byteBracket? a.toUTF8.toList → Balanced byteBracket? b.toUTF8.toList →
      ¬SplitsRun (Plain.commandsOf a) (Plain.commandsOf b) →
      ∃ p q, compile a = .ok p ∧ compile b = .ok q ∧
        compile (a ++ b) = .ok ⟨p.code ++ q.placed p.size (trail (Plain.commandsOf a))⟩) ∧
    ∀ s : String, Balanced byteBracket? s.toUTF8.toList →
      ∃ p, compile s = .ok p ∧
        (Idiom.recognize? (Lexer.ofText ("[" ++ s ++ "]")).tokens = none →
          compile ("[" ++ s ++ "]") = .ok ⟨#[⟨0, .beginLoop (p.size + 1)⟩] ++ p.placed 1 0 ++
            #[⟨trail (Plain.commandsOf s), .endLoop 0⟩]⟩) ∧
        ∀ i, Idiom.recognize? (Lexer.ofText ("[" ++ s ++ "]")).tokens = some i →
          compile ("[" ++ s ++ "]") = .ok ⟨#[i.opcode 0]⟩ := by
  constructor
  · intro a b ha hb hseam
    obtain ⟨p, hp⟩ := (compile_eq_ok_iff a).mpr ha
    obtain ⟨q, hq⟩ := (compile_eq_ok_iff b).mpr hb
    refine ⟨p, q, hp, hq, ?_⟩
    have hq' : ofTokens ((Lexer.ofText b).tokens.map (Token.relabel (· + a.toUTF8.toList.length))) =
        .ok q := by
      rw [ofTokens_relabel, show ofTokens _ = _ from hq]
      rfl
    rw [compile, Lexer.tokens_append]
    refine ofTokens_append (balanced_commandsOf ha) ?_ hp hq'
    rw [map_command_relabel]
    exact hseam
  · intro s hs
    obtain ⟨p, hp⟩ := (compile_eq_ok_iff s).mpr hs
    obtain ⟨opening, closing, f, hopening, hclosing, htokens⟩ :
        ∃ (opening closing : Token) (f : Nat → Nat),
          opening.command = .beginLoop ∧ closing.command = .endLoop ∧
          (Lexer.ofText ("[" ++ s ++ "]")).tokens =
            opening :: ((Lexer.ofText s).tokens.map (Token.relabel f) ++ [closing]) := by
      have hopening : (Lexer.ofText "[").tokens = [⟨.beginLoop, 0⟩] := by decide +kernel
      have hclosing : (Lexer.ofText "]").tokens = [⟨.endLoop, 0⟩] := by decide +kernel
      rw [Lexer.tokens_append, Lexer.tokens_append, hopening, hclosing]
      exact ⟨_, _, _, rfl, rfl, rfl⟩
    have hbody : Balanced Command.bracket?
        (((Lexer.ofText s).tokens.map (Token.relabel f)).map (·.command)) := by
      rw [map_command_relabel]
      exact balanced_commandsOf hs
    have hp' : ofTokens ((Lexer.ofText s).tokens.map (Token.relabel f)) = .ok p := by
      rw [ofTokens_relabel, show ofTokens _ = _ from hp]
      rfl
    refine ⟨p, hp, ?_, ?_⟩
    · intro hnone
      rw [htokens] at hnone
      rw [compile, htokens, ofTokens_enclose hopening hclosing hbody hp' hnone, map_command_relabel]
      rfl
    · intro i hsome
      rw [htokens] at hsome
      rw [compile, htokens, ofTokens_idiom hopening hclosing hbody hsome]

/-- The move in front of a loop goes into the start of the loop, and that at the end of its body into
its end. -/
theorem compile_compositional_loop :
    compile ("+>" ++ "[.<]") = .ok ⟨#[⟨0, .perform (.add 1)⟩, ⟨1, .beginLoop 3⟩,
        ⟨0, .perform .write⟩, ⟨-1, .endLoop 1⟩]⟩ ∧
      compile ("[" ++ ".<" ++ "]") =
        .ok ⟨#[⟨0, .beginLoop 2⟩, ⟨0, .perform .write⟩, ⟨-1, .endLoop 0⟩]⟩ := by
  have hfront : compile "+>" = .ok ⟨#[⟨0, .perform (.add 1)⟩]⟩ := by decide +kernel
  have hbehind : compile "[.<]" =
      .ok ⟨#[⟨0, .beginLoop 2⟩, ⟨0, .perform .write⟩, ⟨-1, .endLoop 0⟩]⟩ := by decide +kernel
  have hbody : compile ".<" = .ok ⟨#[⟨0, .perform .write⟩]⟩ := by decide +kernel
  have hcommands : Plain.commandsOf "+>" = [.increment, .move .right] := by decide +kernel
  have hcommands' : Plain.commandsOf ".<" = [.write, .move .left] := by decide +kernel
  have hnone : Idiom.recognize? (Lexer.ofText ("[" ++ ".<" ++ "]")).tokens = none := by
    decide +kernel
  have hseam : ¬SplitsRun (Plain.commandsOf "+>") (Plain.commandsOf "[.<]") := by
    rw [hcommands]
    rintro (⟨h, -⟩ | ⟨h, -⟩) <;> cases h
  constructor
  · obtain ⟨p, q, hp, hq, hpq⟩ := compile_compositional.1 "+>" "[.<]"
      ((compile_eq_ok_iff _).mp ⟨_, hfront⟩) ((compile_eq_ok_iff _).mp ⟨_, hbehind⟩) hseam
    cases hfront.symm.trans hp
    cases hbehind.symm.trans hq
    rw [hpq, hcommands]
    decide +kernel
  · obtain ⟨p, hp, henclosed, -⟩ := compile_compositional.2 ".<" ((compile_eq_ok_iff _).mp ⟨_, hbody⟩)
    cases hbody.symm.trans hp
    rw [henclosed hnone, hcommands']
    decide +kernel

end Program

end Brainfuck
