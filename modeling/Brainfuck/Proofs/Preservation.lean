import Brainfuck.Proofs.Acceptance
import Brainfuck.Proofs.Together

/-!
# Compiling preserves the meaning of a text

What can be observed of a run are the bytes read and written, in their order, and how the run ends.
`Console.logged` puts a log of the former beside the state of any console, so that two runs that
leave the same state have made the same reads and writes and were given the same answers.

Main result: `Program.compile_preserves`. A text with balanced brackets is compiled into a program
that ends as the text does when it is executed plainly: at its end, where reading or writing fails,
or never.
-/

namespace Brainfuck

/-- A read or a write, with the answer to it. -/
inductive Event
  | read (answer : Except DeviceError (Option UInt8))
  | write (byte : UInt8) (answer : Except DeviceError Unit)

/-- The console with a log of what happens at it, latest last. -/
def Console.logged {σ : Type} (io : Console σ) : Console (σ × List Event) where
  read := fun (device, log) =>
    let (answer, device) := io.read device
    (answer, device, log ++ [.read answer])
  write := fun byte (device, log) =>
    let (answer, device) := io.write byte device
    (answer, device, log ++ [.write byte answer])

/-- A text whose brackets are balanced is compiled, and its length bounds its moves. -/
theorem exists_compiled {text : String} {size : Nat}
    (hbalanced : Balanced byteBracket? text.toUTF8.toList)
    (hsize : ((text.utf8ByteSize + size : Nat) : Int) ≤ greatestPosition) :
    ∃ p, Program.compile text = .ok p ∧ Compiled (Lexer.ofText text).tokens p size := by
  obtain ⟨p, hp⟩ := (Program.compile_eq_ok_iff text).mpr hbalanced
  have hlength := Lexer.length_tokens_le text
  exact ⟨p, hp, hp, by omega⟩

namespace Program

/-- **A compiled text does what the text does.** If the text ends, so does the program, with the
same cells and the cursor where one was used last. If reading or writing fails, it fails at the same
event. If the text runs forever, the program uses up any budget and has then done what the text does
with at least as many commands. -/
theorem compile_preserves {σ : Type} (io : Console σ) (device : σ) {text : String} {t : Tape}
    (hbalanced : Balanced byteBracket? text.toUTF8.toList) (hcursor : t.cursor < t.size)
    (hsize : ((text.utf8ByteSize + t.size : Nat) : Int) ≤ greatestPosition) :
    ∃ p, compile text = .ok p ∧
      (∀ n s,
        Plain.after io.logged (Plain.commandsOf text) n (.start t (device, [])) = .finished s →
        ∃ k, ∀ budget, k ≤ budget →
          Session.run io.logged (fun _ => false) budget ⟨.start p t, (device, [])⟩ =
            (.completed, ⟨⟨p, s.tape, p.size, k⟩, s.device⟩)) ∧
      (∀ n e s,
        Plain.after io.logged (Plain.commandsOf text) n (.start t (device, [])) = .failed e s →
        ∃ k machine, ∀ budget, k ≤ budget →
          Session.run io.logged (fun _ => false) budget ⟨.start p t, (device, [])⟩ =
            (.failed (.reported (.io e)), ⟨machine, s.device⟩)) ∧
      ((∀ n, ∃ s, Plain.after io.logged (Plain.commandsOf text) n (.start t (device, [])) =
          .next s) →
        ∀ budget, ∃ S n s,
          Session.run io.logged (fun _ => false) budget ⟨.start p t, (device, [])⟩ =
            (.suspended, S) ∧
          budget ≤ n ∧ Plain.after io.logged (Plain.commandsOf text) n (.start t (device, [])) =
            .next s ∧
          S.device = s.device) := by
  obtain ⟨p, hp, hc⟩ := exists_compiled hbalanced hsize
  exact ⟨p, hp, fun n s h => run_completed hc hcursor h, fun n e s h => run_failed hc hcursor h,
    fun h => run_suspended hc hcursor h⟩

/-- A byte that is read, moved to the next cell, and written there. -/
theorem compile_preserves_moved_byte :
    ∃ p k, compile ",[->+<]>." = .ok p ∧ ∀ budget, k ≤ budget →
      Session.run Console.fed.logged (fun _ => false) budget
          ⟨.start p ⟨#[0, 0], 0⟩, (.start (.bytes [3]), [])⟩ =
        (.completed, ⟨⟨p, ⟨#[0, 3], 1⟩, p.size, k⟩,
          (⟨.bytes [], #[3]⟩, [.read (.ok (some 3)), .write 3 (.ok ())])⟩) := by
  have hcommands : Plain.commandsOf ",[->+<]>." =
      [.read, .beginLoop, .decrement, .move .right, .increment, .move .left, .endLoop,
        .move .right, .write] := by decide +kernel
  have hcompile : compile ",[->+<]>." =
      .ok ⟨#[⟨0, .perform .read⟩, ⟨0, .perform (.copy [⟨1, 1⟩])⟩, ⟨1, .perform .write⟩]⟩ := by
    decide +kernel
  have hbalanced := (compile_eq_ok_iff ",[->+<]>.").mp ⟨_, hcompile⟩
  obtain ⟨p, hp, hfinished, -⟩ := compile_preserves Console.fed (.start (.bytes [3]))
    (t := ⟨#[0, 0], 0⟩) hbalanced (by decide) (by decide +kernel)
  obtain ⟨k, hk⟩ := hfinished 30 ⟨9, 1, ⟨#[0, 3], 1⟩, _⟩ (by rw [hcommands]; rfl)
  exact ⟨p, k, hp, hk⟩

end Program

end Brainfuck
