import Brainfuck.Proofs.Passes

/-!
# What the compiler says of a text

Which answer is due to a text is a matter of its brackets (`Judged`). `Program.compile_exact` says
who gives that answer: `Program.compile` to every text, and the compiler that holds its numbers in
words to every text too, however its numbers overflow, unless it checks them and the text is
overloaded. Then it crashes.

No text is longer than the greatest position, so the bound on the length is none on the texts there
are.
-/

namespace Brainfuck

/-- A walk with too many increments in a row overloads a text that starts with it. -/
theorem overloaded_of_lt (d : Direction) {count : Nat} (h : greatestHalfWord < count)
    (behind : List Command) : Overloaded (.beginLoop :: .decrement :: .move d ::
      List.replicate count .increment ++ behind) := by
  refine ⟨[], _, (List.nil_append _).symm, neverBelow_nil, d,
    List.replicate count .increment ++ behind, rfl, [], fun _ h => absurd h List.not_mem_nil, ?_⟩
  obtain ⟨more, rfl⟩ := Nat.exists_eq_add_of_lt h
  rw [List.nil_append, Nat.add_right_comm, List.replicate_add (greatestHalfWord + 1),
    List.append_assoc]
  exact List.prefix_append _ _

theorem map_mapError_eq_ok {ε ε' α : Type} {f : ε → ε'} (answer : Option (Except ε α)) {x : α} :
    answer.map (·.mapError f) = some (.ok x) ↔ answer = some (.ok x) := by
  rcases answer with - | (e | y)
  · simp
  · simp [Except.mapError]
  · simp [Except.mapError]

namespace Program

variable (o : Overflow) {text : String}

/-- There are no more commands than bytes. -/
theorem length_commandsOf_le (hsize : ((text.utf8ByteSize : Nat) : Int) ≤ greatestPosition) :
    (((Plain.commandsOf text).length : Nat) : Int) ≤ greatestPosition := by
  have hlength := Lexer.length_tokens_le text
  rw [Plain.commandsOf, List.length_map]
  omega

/-- **Every compiled program is well formed**, and so is every program that is compiled in words,
even of a text that is overloaded. -/
theorem compile_wellFormed {text : String} {p : Program} :
    (compile text = .ok p → p.WellFormed) ∧
      ∀ o : Overflow, ((text.utf8ByteSize : Nat) : Int) ≤ greatestPosition →
        compileInWords o text = some (.ok p) → p.WellFormed := by
  refine ⟨wellFormed_of_compile, fun o hsize hp => ?_⟩
  rcases compileInWords_cases o (length_commandsOf_le hsize) with ⟨row, hends⟩ | ⟨-, -, hcrash⟩
  · rw [hends.result_eq] at hp
    exact wellFormed_of_ofPhrases
      (Option.some.inj ((map_mapError_eq_ok (some _)).mp hp)) hends.effects
  · rw [hcrash] at hp
    cases hp

/-- A loop within a loop, and a copy in the inner one. -/
theorem compile_wellFormed_loop_within_loop :
    compile "[>[,[-<+<++>>].]<]" = .ok ⟨#[⟨0, .beginLoop 6⟩, ⟨1, .beginLoop 5⟩,
      ⟨0, .perform .read⟩, ⟨0, .perform (.copy [⟨-2, 2⟩, ⟨-1, 1⟩])⟩, ⟨0, .perform .write⟩,
      ⟨0, .endLoop 1⟩, ⟨-1, .endLoop 0⟩]⟩ ∧
    WellFormed ⟨#[⟨0, .beginLoop 6⟩, ⟨1, .beginLoop 5⟩,
      ⟨0, .perform .read⟩, ⟨0, .perform (.copy [⟨-2, 2⟩, ⟨-1, 1⟩])⟩, ⟨0, .perform .write⟩,
      ⟨0, .endLoop 1⟩, ⟨-1, .endLoop 0⟩]⟩ := by
  have hcompile : compile "[>[,[-<+<++>>].]<]" = .ok ⟨#[⟨0, .beginLoop 6⟩, ⟨1, .beginLoop 5⟩,
      ⟨0, .perform .read⟩, ⟨0, .perform (.copy [⟨-2, 2⟩, ⟨-1, 1⟩])⟩, ⟨0, .perform .write⟩,
      ⟨0, .endLoop 1⟩, ⟨-1, .endLoop 0⟩]⟩ := by decide +kernel
  exact ⟨hcompile, compile_wellFormed.1 hcompile⟩

end Program

end Brainfuck
