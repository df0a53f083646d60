import Brainfuck.Phrase
import Brainfuck.Proofs.Balance

/-!
# How phrases are spelled

`Phrase.Spelled phrase commands` is the grammar of phrases, told without looking for them: which
rows of commands stand for which phrase. Its copying loops are what `Idiom.copy?` looks for in two
passes, one out from the cell and one back to it.

Main result: `Phrase.start_spelled`. The phrase that is found at the front of a token list is
spelled by the tokens it takes up. For idioms this is `Idiom.recognize?_spelled`, with one lemma for
each recogniser; what a copying loop looks like is `Idiom.copyAlong?_eq_some`.
-/

namespace Brainfuck

/-- The bracket that the command is. -/
def Command.bracket? : Command → Option Bracket
  | beginLoop => some .opening
  | endLoop => some .closing
  | _ => none

/-- The commands of a copying loop: `[-`, a walk away from the cell, just as many moves back, and
`]`. -/
def Idiom.copyCommands (d : Direction) (walk : List Token) : List Command :=
  [.beginLoop, .decrement] ++ walk.map (·.command) ++
    List.replicate (walk.countP (moves d)) (.move d.opposite) ++ [.endLoop]

theorem Idiom.length_copyCommands (d : Direction) (walk : List Token) :
    (copyCommands d walk).length = 2 + walk.length + walk.countP (moves d) + 1 := by
  unfold copyCommands
  rw [List.length_append, List.length_append, List.length_append, List.length_map,
    List.length_replicate]
  rfl

namespace Phrase

/-- The bracket that the phrase is. An idiom is none. -/
def bracket? : Phrase → Option Bracket
  | beginLoop _ => some .opening
  | endLoop _ => some .closing
  | _ => none

theorem exists_beginLoop {phrase : Phrase} (h : phrase.bracket? = some .opening) :
    ∃ offset, phrase = beginLoop offset := by
  cases phrase with
  | beginLoop offset => exact ⟨offset, rfl⟩
  | _ => cases h

theorem exists_endLoop {phrase : Phrase} (h : phrase.bracket? = some .closing) :
    ∃ offset, phrase = endLoop offset := by
  cases phrase with
  | endLoop offset => exact ⟨offset, rfl⟩
  | _ => cases h

/-- The rows of commands that stand for a phrase. -/
inductive Spelled : Phrase → List Command → Prop
  | move (d : Direction) : Spelled (move d) [.move d]
  | add (more : Nat) :
      Spelled (perform (.add (more + 1))) (List.replicate (more + 1) .increment)
  | sub (more : Nat) :
      Spelled (perform (.sub (more + 1))) (List.replicate (more + 1) .decrement)
  | read : Spelled (perform .read) [.read]
  | write : Spelled (perform .write) [.write]
  /-- `[-]` -/
  | clearDown : Spelled (perform .clear) [.beginLoop, .decrement, .endLoop]
  /-- `[+]` -/
  | clearUp : Spelled (perform .clear) [.beginLoop, .increment, .endLoop]
  /-- `[>]` or `[<]` -/
  | scan (d : Direction) : Spelled (perform (.scan d)) [.beginLoop, .move d, .endLoop]
  /-- A copying loop whose walk adds somewhere. -/
  | copy {d : Direction} {first : Token} {rest : List Token} (hfirst : first.command = .move d)
      (hrest : ∀ t ∈ rest, Idiom.outbound d t) (hadds : ∃ t ∈ rest, t.command = .increment) :
      Spelled (perform (.copy (Idiom.targets d (first :: rest))))
        (Idiom.copyCommands d (first :: rest))
  | beginLoop (offset : Nat) : Spelled (beginLoop offset) [.beginLoop]
  | endLoop (offset : Nat) : Spelled (endLoop offset) [.endLoop]

/-- Every phrase takes up a command. -/
theorem Spelled.ne_nil {phrase : Phrase} {commands : List Command}
    (h : Spelled phrase commands) : commands ≠ [] := by
  cases h <;> simp [Idiom.copyCommands]

end Phrase

/-! ## Idioms are spelled -/

namespace Idiom

theorem clear?_spelled {tokens : List Token} {i : Idiom} (h : clear? tokens = some i) :
    0 < i.length ∧ (Phrase.perform i.effect).Spelled ((tokens.take i.length).map (·.command)) := by
  unfold clear? at h
  split at h
  · cases h
    exact ⟨by decide, .clearDown⟩
  · cases h
    exact ⟨by decide, .clearUp⟩
  · cases h

theorem scan?_spelled {tokens : List Token} {i : Idiom} (h : scan? tokens = some i) :
    0 < i.length ∧ (Phrase.perform i.effect).Spelled ((tokens.take i.length).map (·.command)) := by
  unfold scan? at h
  split at h
  · cases h
    exact ⟨Nat.succ_pos 2, .scan _⟩
  · cases h

/-- Tokens that are all moves one way are told apart by their number only. -/
theorem map_command_of_moves {d : Direction} {tokens : List Token} (h : ∀ t ∈ tokens, moves d t) :
    tokens.map (·.command) = List.replicate tokens.length (.move d) := by
  refine List.eq_replicate_iff.mpr ⟨List.length_map _, ?_⟩
  intro c hc
  obtain ⟨t, ht, rfl⟩ := List.mem_map.mp hc
  exact of_decide_eq_true (h t ht)

/-- A walk that has more tokens than moves adds somewhere. -/
theorem exists_increment {d : Direction} {walk : List Token} (hwalk : ∀ t ∈ walk, outbound d t)
    (h : walk.countP (moves d) < walk.length) : ∃ t ∈ walk, t.command = .increment := by
  have hsome : ¬∀ t ∈ walk, moves d t := fun hall => by
    rw [List.countP_eq_length.mpr hall] at h
    exact absurd h (Nat.lt_irrefl _)
  obtain ⟨t, ht⟩ := Classical.not_forall.mp hsome
  obtain ⟨hmem, hmove⟩ := Classical.not_imp.mp ht
  refine ⟨t, hmem, ?_⟩
  have hout := hwalk t hmem
  simp only [outbound, moves, Bool.or_eq_true, decide_eq_true_eq] at hout hmove
  exact hout.resolve_left hmove

/-- What a copying loop looks like behind its `[-`. -/
theorem copyAlong?_eq_some {d : Direction} {body : List Token} {i : Idiom}
    (h : copyAlong? d body = some i) :
    ∃ walk back closing tail, body = walk ++ back ++ closing :: tail ∧
      walk = body.takeWhile (outbound d) ∧ (∀ t ∈ walk, outbound d t) ∧
      (∀ t ∈ back, moves d.opposite t) ∧ closing.command = .endLoop ∧
      back.length = walk.countP (moves d) ∧ back.length < walk.length ∧
      i = ⟨.copy (targets d walk), walk.length + back.length + 3⟩ := by
  simp only [copyAlong?] at h
  split at h
  case h_2 => cases h
  case h_1 offset tail hbehind =>
    split at h
    case isFalse => cases h
    case isTrue hlength =>
      cases h
      refine ⟨body.takeWhile (outbound d),
        (body.dropWhile (outbound d)).takeWhile (moves d.opposite), ⟨.endLoop, offset⟩, tail,
        ?_, rfl, List.all_eq_true.mp List.all_takeWhile, List.all_eq_true.mp List.all_takeWhile,
        rfl, hlength.1, hlength.2, ?_⟩
      · rw [← hbehind, List.append_assoc, List.takeWhile_append_dropWhile,
          List.takeWhile_append_dropWhile]
      · rw [Idiom.mk.injEq]
        exact ⟨rfl, by omega⟩

/-- What a copying loop looks like from its `[` on. -/
theorem copy?_eq_some {tokens : List Token} {i : Idiom} (h : copy? tokens = some i) :
    ∃ d first rest more, first.command = .move d ∧ (∀ t ∈ rest, outbound d t) ∧
      (∃ t ∈ rest, t.command = .increment) ∧
      tokens.map (·.command) = copyCommands d (first :: rest) ++ more ∧
      i = ⟨.copy (targets d (first :: rest)), (copyCommands d (first :: rest)).length⟩ := by
  unfold copy? at h
  split at h
  case h_2 => cases h
  case h_1 opening down d offset body =>
    obtain ⟨walk, back, closing, tail, hbody, hwalk, hout, hback, hclosing, hlength, hless, rfl⟩ :=
      copyAlong?_eq_some h
    rw [List.takeWhile_cons_of_pos (by simp [outbound])] at hwalk
    obtain ⟨rest, rfl⟩ : ∃ rest, walk = ⟨.move d, offset⟩ :: rest := ⟨_, hwalk⟩
    obtain ⟨t, ht, hadds⟩ := exists_increment hout (hlength ▸ hless)
    rcases List.mem_cons.mp ht with rfl | ht
    · cases hadds
    refine ⟨d, ⟨.move d, offset⟩, rest, tail.map (·.command), rfl,
      fun t ht => hout t (List.mem_cons_of_mem _ ht), ⟨t, ht, hadds⟩, ?_, ?_⟩
    · rw [hbody, copyCommands, ← hlength, ← map_command_of_moves hback]
      simp only [List.map_append, List.map_cons, hclosing, List.append_assoc, List.cons_append,
        List.nil_append]
    · rw [length_copyCommands, ← hlength, Idiom.mk.injEq]
      exact ⟨rfl, by omega⟩

theorem copy?_spelled {tokens : List Token} {i : Idiom} (h : copy? tokens = some i) :
    0 < i.length ∧ (Phrase.perform i.effect).Spelled ((tokens.take i.length).map (·.command)) := by
  obtain ⟨d, first, rest, more, hfirst, hrest, hadds, htokens, rfl⟩ := copy?_eq_some h
  refine ⟨length_copyCommands d _ ▸ Nat.succ_pos _, ?_⟩
  rw [List.map_take, htokens, List.take_left' rfl]
  exact .copy hfirst hrest hadds

/-- A recognised idiom is spelled by the tokens it takes up. -/
theorem recognize?_spelled {tokens : List Token} {i : Idiom} (h : recognize? tokens = some i) :
    0 < i.length ∧ (Phrase.perform i.effect).Spelled ((tokens.take i.length).map (·.command)) := by
  simp only [recognize?, Option.orElse_eq_orElse, Option.orElse_eq_or, Option.or_eq_some_iff] at h
  rcases h with h | ⟨-, h | ⟨-, h⟩⟩
  · exact clear?_spelled h
  · exact copy?_spelled h
  · exact scan?_spelled h

end Idiom

/-! ## Phrases are spelled -/

namespace Phrase

theorem map_command_of_run (c : Command) (tokens : List Token) :
    (tokens.take (runLength c tokens)).map (·.command) = List.replicate (runLength c tokens) c := by
  have htake : tokens.take (runLength c tokens) = tokens.takeWhile (·.command = c) := by
    have hsplit := List.takeWhile_append_dropWhile (p := fun t : Token => t.command = c)
      (l := tokens)
    conv => lhs; arg 2; rw [← hsplit]
    exact List.take_left' rfl
  rw [htake]
  refine List.eq_replicate_iff.mpr ⟨List.length_map _, ?_⟩
  intro c' hc'
  obtain ⟨t, ht, rfl⟩ := List.mem_map.mp hc'
  exact of_decide_eq_true (List.all_eq_true.mp List.all_takeWhile t ht)

/-- The phrase at the front of the tokens is spelled by the tokens it takes up. -/
theorem start_spelled (first : Token) (rest : List Token) :
    (start first rest).1.Spelled ((first :: rest.take (start first rest).2).map (·.command)) := by
  obtain ⟨c, offset⟩ := first
  cases c with
  | move d => exact .move d
  | increment =>
    rw [start, List.map_cons, map_command_of_run]
    exact .add (runLength .increment rest)
  | decrement =>
    rw [start, List.map_cons, map_command_of_run]
    exact .sub (runLength .decrement rest)
  | read => exact .read
  | write => exact .write
  | endLoop => exact .endLoop offset
  | beginLoop =>
    rw [start]
    cases h : Idiom.recognize? (⟨.beginLoop, offset⟩ :: rest) with
    | none => exact .beginLoop offset
    | some i =>
      obtain ⟨hpos, hspelled⟩ := Idiom.recognize?_spelled h
      rwa [← Nat.sub_add_cancel hpos, List.take_succ_cons] at hspelled

/-- A bracket that belongs to no idiom is a phrase of its own, at the place where it stands. -/
theorem start_of_bracket {first : Token} {rest : List Token} {offset : Nat} :
    ((start first rest).1 = beginLoop offset →
      first = ⟨.beginLoop, offset⟩ ∧ (start first rest).2 = 0 ∧
        Idiom.recognize? (first :: rest) = none) ∧
    ((start first rest).1 = endLoop offset →
      first = ⟨.endLoop, offset⟩ ∧ (start first rest).2 = 0) := by
  obtain ⟨c, offset'⟩ := first
  cases c with
  | beginLoop =>
    rw [start]
    cases h : Idiom.recognize? (⟨.beginLoop, offset'⟩ :: rest) with
    | none => exact ⟨fun h' => by cases h'; exact ⟨rfl, rfl, rfl⟩, fun h' => by cases h'⟩
    | some i => exact ⟨fun h' => (by cases h'), fun h' => by cases h'⟩
  | endLoop => exact ⟨fun h' => (by cases h'), fun h' => by cases h'; exact ⟨rfl, rfl⟩⟩
  | _ => exact ⟨fun h' => (by cases h'), fun h' => by cases h'⟩

end Phrase

end Brainfuck
