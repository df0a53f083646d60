import Brainfuck.Proofs.Cells
import Brainfuck.Proofs.Lexing
import Brainfuck.Proofs.Places
import Brainfuck.Proofs.WellFormed

/-!
# How far opcodes reach

The moves and the targets of a compiled program reach no further than its text is long, since every
cell of the way has a command of its own (`Program.compile_within`). On a tape that leaves room for
that, no position overflows (`Tape.inWord_of_within`).
-/

namespace Brainfuck

/-- There are no more than `bound` opcodes, and none reaches further than `bound` cells. -/
structure Program.Within (p : Program) (bound : Nat) : Prop where
  size_le : p.size ≤ bound
  move_le : ∀ index move action, p.get? index = some ⟨move, action⟩ → move.natAbs ≤ bound
  offset_le : ∀ index move targets, p.get? index = some ⟨move, .perform (.copy targets)⟩ →
    ∀ t ∈ targets, t.offset.natAbs ≤ bound

/-- A position that a cursor on the tape can be sent to fits into a word. -/
theorem Tape.inWord_of_within {t : Tape} {offset : Int} {bound : Nat}
    (hoffset : offset.natAbs ≤ bound) (hcursor : t.cursor ≤ t.size)
    (hword : ((bound + t.size : Nat) : Int) ≤ greatestPosition) : t.InWord offset := by
  unfold InWord leastPosition greatestPosition at *
  omega

/-- A text has no more commands than bytes. -/
theorem Plain.length_commandsOf_le (text : String) :
    (commandsOf text).length ≤ text.utf8ByteSize := by
  rw [commandsOf, List.length_map]
  exact Lexer.length_tokens_le text

theorem length_commands_le_of_mem {row : List Stretch} {x : Stretch} (h : x ∈ row) :
    x.commands.length ≤ (rowCommands row).length := by
  obtain ⟨front, behind, rfl⟩ := List.append_of_mem h
  rw [rowCommands_append, rowCommands_cons, List.length_append, List.length_append]
  omega

/-- The targets of a copying loop lie no further away than the loop is long. -/
theorem Phrase.Spelled.natAbs_offset_le {targets : List Target} {commands : List Command}
    (h : (Phrase.perform (.copy targets)).Spelled commands) {t : Target} (ht : t ∈ targets) :
    t.offset.natAbs ≤ commands.length := by
  cases h with
  | @copy d first rest hfirst hrest hadds =>
    obtain ⟨⟨k, -, hk, hoffset⟩, -⟩ := Idiom.mem_targets hfirst hrest ht
    rw [Idiom.length_copyCommands, List.length_cons, hoffset]
    cases d <;> simp only [Direction.unit] <;> omega

namespace Program

theorem length_split_le (tokens : List Token) : (Phrase.split tokens).length ≤ tokens.length := by
  have hrow := length_le_rowCommands (stretches tokens)
  rw [rowCommands_stretches, List.length_map] at hrow
  rw [← map_phrase_stretches, List.length_map]
  exact hrow

/-- The phrases of a loop are no more than there are in all. -/
theorem LoopPhrases.length_le {phrases front body : List Phrase}
    (h : LoopPhrases phrases front body) :
    front.length ≤ phrases.length ∧ body.length ≤ phrases.length := by
  obtain ⟨-, start, stop, behind, rfl⟩ := h
  simp only [List.length_append, List.length_cons]
  omega

/-- What an opcode carries has been held back for one phrase at a time. -/
theorem natAbs_move_le {phrases : List Phrase} {p : Program} (hp : ofPhrases phrases = .ok p)
    {index : Nat} {move : Int} {action : Action} (h : p.get? index = some ⟨move, action⟩) :
    move.natAbs ≤ phrases.length := by
  have hcarried : ∀ part : List Phrase, part.length ≤ phrases.length →
      (carried part).natAbs ≤ phrases.length := by
    intro part hpart
    have := carried_bounds part
    omega
  rcases get?_cases hp (balanced_of_ofPhrases hp) h with
    ⟨front, effect, behind, rfl, -, rfl, -⟩ |
    ⟨front, body, hloop, ⟨-, rfl, -⟩ | ⟨-, rfl, -⟩⟩
  · refine hcarried front ?_
    rw [List.length_append]
    exact Nat.le_add_right ..
  · exact hcarried front hloop.length_le.1
  · exact hcarried body hloop.length_le.2

/-- **A compiled program stays within the length of its text**, counted in commands. -/
theorem compile_within {text : String} {p : Program} (h : compile text = .ok p) :
    p.Within (Plain.commandsOf text).length := by
  have hp : ofPhrases (Phrase.split (Lexer.ofText text).tokens) = .ok p := h
  have hlength := length_split_le (Lexer.ofText text).tokens
  have hcommands : (Plain.commandsOf text).length = (Lexer.ofText text).tokens.length :=
    List.length_map _
  rw [hcommands]
  constructor
  case size_le =>
    rw [size_of_ofPhrases hp]
    exact Nat.le_trans List.countP_le_length hlength
  case move_le =>
    intro index move action hget
    exact Nat.le_trans (natAbs_move_le hp hget) hlength
  case offset_le =>
    intro index move targets hget t ht
    have hmem := mem_of_perform hp (balanced_of_ofPhrases hp) hget
    rw [← map_phrase_stretches] at hmem
    obtain ⟨x, hx, hphrase⟩ := List.mem_map.mp hmem
    have hspelled := x.spelled
    rw [hphrase] at hspelled
    have hrow := length_commands_le_of_mem hx
    rw [rowCommands_stretches, List.length_map] at hrow
    exact Nat.le_trans (hspelled.natAbs_offset_le ht) hrow

end Program

end Brainfuck
