import Brainfuck.Proofs.Assembly
import Brainfuck.Proofs.Running
import Brainfuck.Proofs.Stretch
import Mathlib.Data.List.Basic

/-!
# Places in a text and in its program

`opcodeIndex` tells which opcode a command belongs to: the one its stretch is compiled into, or the
next one if the stretch is a move (`opcodeIndex_append`).

`Plain.ClosesScan` is about one kind of place, the `]` of a loop that is nothing but a move. Such a
loop is always an idiom, so a `]` that is a stretch of its own is never of that kind
(`not_closesScan`).
-/

namespace Brainfuck

namespace Plain

/-- The command at `position` closes a loop whose only command is a move in direction `d`. -/
def ClosesScan (commands : List Command) (d : Direction) (position : Nat) : Prop :=
  ∃ start, Segment commands start [.beginLoop, .move d, .endLoop] ∧ position = start + 2

theorem ClosesScan.endLoop {commands : List Command} {d : Direction} {position : Nat}
    (h : ClosesScan commands d position) : commands[position]? = some .endLoop := by
  obtain ⟨start, hsegment, rfl⟩ := h
  exact hsegment.tail.tail.head

theorem ClosesScan.unique {commands : List Command} {d d' : Direction} {position : Nat}
    (h : ClosesScan commands d position) (h' : ClosesScan commands d' position) : d = d' := by
  obtain ⟨start, hsegment, rfl⟩ := h
  obtain ⟨start', hsegment', hposition⟩ := h'
  obtain rfl : start = start' := Nat.add_right_cancel hposition
  have hmove := hsegment.tail.head.symm.trans hsegment'.tail.head
  cases hmove
  rfl

end Plain

/-- The index of the opcode to which the command at `position` belongs. -/
def opcodeIndex : List Stretch → Nat → Nat
  | [], _ => 0
  | x :: row, position =>
    if position < x.commands.length then 0
    else (if x.phrase.makesOpcode then 1 else 0) + opcodeIndex row (position - x.commands.length)

theorem opcodeIndex_append {front behind : List Stretch} {x : Stretch} {i : Nat}
    (hi : i < x.commands.length) :
    opcodeIndex (front ++ x :: behind) ((rowCommands front).length + i) =
      opcodeCount (front.map (·.phrase)) := by
  induction front with
  | nil =>
    rw [List.nil_append, opcodeIndex, rowCommands_nil, List.length_nil, Nat.zero_add, if_pos hi]
    rfl
  | cons y front ih =>
    have hnot : ¬(y.commands.length + (rowCommands front).length + i < y.commands.length) := by
      omega
    have hrest : y.commands.length + (rowCommands front).length + i - y.commands.length =
        (rowCommands front).length + i := by
      omega
    rw [List.cons_append, opcodeIndex, rowCommands_cons, List.length_append, if_neg hnot, hrest, ih,
      List.map_cons, opcodeCount_cons, Nat.add_comm]

/-! ## Lengths and moves -/

theorem Stretch.commands_ne_nil (x : Stretch) : x.commands ≠ [] := x.spelled.ne_nil

theorem length_le_rowCommands (row : List Stretch) : row.length ≤ (rowCommands row).length := by
  induction row with
  | nil => exact Nat.le_refl 0
  | cons x row ih =>
    have hpos := List.length_pos_iff.mpr x.commands_ne_nil
    rw [rowCommands_cons, List.length_append, List.length_cons]
    omega

/-- No more is held back than there are phrases to hold it back for. -/
theorem carried_bounds (phrases : List Phrase) :
    -(phrases.length : Int) ≤ carried phrases ∧ carried phrases ≤ phrases.length := by
  induction phrases using List.reverseRecOn with
  | nil => exact ⟨Int.le_refl 0, Int.le_refl 0⟩
  | append_singleton phrases phrase ih =>
    rw [carried_concat, List.length_append, List.length_singleton]
    -- a move changes what is held back by one, and behind an opcode nothing is held back
    cases phrase with
    | move d =>
      cases d <;> simp only [Phrase.carry, Direction.unit] <;> omega
    | _ =>
      simp only [Phrase.carry]
      omega

/-! ## Closing brackets that are no idiom's -/

theorem Phrase.Spelled.of_getLast_move {phrase : Phrase} {commands : List Command} {d : Direction}
    (h : phrase.Spelled commands) (hlast : commands.getLast? = some (.move d)) :
    commands = [.move d] := by
  cases h with
  | move d' =>
    cases hlast
    rfl
  | add more =>
    rw [List.getLast?_replicate, if_neg (Nat.succ_ne_zero more)] at hlast
    cases hlast
  | sub more =>
    rw [List.getLast?_replicate, if_neg (Nat.succ_ne_zero more)] at hlast
    cases hlast
  | copy hfirst hrest hadds =>
    rw [Idiom.copyCommands, List.getLast?_concat] at hlast
    cases hlast
  | _ => cases hlast

theorem Phrase.Spelled.of_getLast_beginLoop {phrase : Phrase} {commands : List Command}
    (h : phrase.Spelled commands) (hlast : commands.getLast? = some .beginLoop) :
    ∃ offset, phrase = .beginLoop offset := by
  cases h with
  | add more =>
    rw [List.getLast?_replicate, if_neg (Nat.succ_ne_zero more)] at hlast
    cases hlast
  | sub more =>
    rw [List.getLast?_replicate, if_neg (Nat.succ_ne_zero more)] at hlast
    cases hlast
  | copy hfirst hrest hadds =>
    rw [Idiom.copyCommands, List.getLast?_concat] at hlast
    cases hlast
  | beginLoop offset => exact ⟨offset, rfl⟩
  | _ => cases hlast

/-- The last command of a row is the last command of its last stretch. -/
theorem exists_last {row : List Stretch} {part : List Command} {c : Command}
    (h : rowCommands row = part ++ [c]) :
    ∃ front y, row = front ++ [y] ∧ rowCommands front ++ y.commands = part ++ [c] ∧
      y.commands.getLast? = some c := by
  rcases List.eq_nil_or_concat row with rfl | ⟨front, y, rfl⟩
  · rw [rowCommands_nil] at h
    exact absurd h.symm (List.append_ne_nil_of_right_ne_nil part (List.cons_ne_nil c []))
  · rw [List.concat_eq_append, rowCommands_append, rowCommands_cons, rowCommands_nil,
      List.append_nil] at h
    refine ⟨front, y, List.concat_eq_append, h, ?_⟩
    have hlast := congrArg List.getLast? h
    rwa [List.getLast?_append_of_ne_nil _ y.commands_ne_nil, List.getLast?_concat] at hlast

/-- **A `]` that belongs to no idiom** does not close a loop that is nothing but a move. -/
theorem not_closesScan {tokens : List Token} {front behind : List Stretch} {x : Stretch}
    {offset : Nat} (h : stretches tokens = front ++ x :: behind) (hx : x.phrase = .endLoop offset)
    (d : Direction) :
    ¬Plain.ClosesScan (tokens.map (·.command)) d (rowCommands front).length := by
  rintro ⟨start, ⟨rest, hrest⟩, hposition⟩
  rw [← rowCommands_stretches, h, rowCommands_append] at hrest
  generalize rowCommands (x :: behind) = later at hrest
  have hfront : rowCommands front =
      (rowCommands front ++ later).take start ++ [.beginLoop] ++ [.move d] := by
    have htake : (rowCommands front ++ later).take (rowCommands front).length = rowCommands front :=
      List.take_left
    rw [hposition, List.take_add, ← hrest] at htake
    rw [List.append_assoc]
    exact htake.symm
  -- the last two stretches in front of the bracket are the `[` and the move
  obtain ⟨front₁, y, rfl, hy, hlast⟩ := exists_last hfront
  have hmove := y.spelled.of_getLast_move hlast
  have hmove' : y.commands = [.move d] := hmove
  rw [hmove'] at hy
  obtain ⟨front₂, z, rfl, -, hlast'⟩ := exists_last (List.append_cancel_right hy)
  obtain ⟨offset', hz⟩ := z.spelled.of_getLast_beginLoop hlast'
  obtain ⟨token, htoken⟩ : ∃ token, y.tokens = [⟨.move d, token⟩] := by
    obtain ⟨⟨c, token⟩, htokens, hc⟩ := List.map_eq_singleton_iff.mp hmove
    cases hc
    exact ⟨token, htokens⟩
  rw [List.append_assoc, List.append_assoc, List.singleton_append, List.singleton_append] at h
  have hnone := recognize?_eq_none h hz
  rw [rowTokens_cons, rowTokens_cons, htoken, x.endLoop_located offset hx] at hnone
  cases hnone

end Brainfuck
