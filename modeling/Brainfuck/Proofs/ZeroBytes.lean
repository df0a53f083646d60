import Brainfuck.Proofs.Acceptance
import Brainfuck.Proofs.Alike

/-!
# The byte zero and no byte

A program cannot tell a byte zero from no byte. Two sources may answer differently in this respect at
every read (`SameOrZero`), and so may come to quite different states of their own; but as long as
they agree otherwise, read by read (`Source.Agrees`), the machine hears the same from both
(`Console.joined_alike_of_agrees`). So everything that can be seen of two runs is the same: where
they are after any sequence of calls, what they have written, and what any further call answers.

Main result: `Session.afterCalls_zero_or_none`.
-/

namespace Brainfuck

/-- Two answers to a read are the same, or one is the byte zero and the other is no byte. -/
inductive SameOrZero :
    Except DeviceError (Option UInt8) → Except DeviceError (Option UInt8) → Prop
  | same (answer : Except DeviceError (Option UInt8)) : SameOrZero answer answer
  | zeroNone : SameOrZero (.ok (some 0)) (.ok none)
  | noneZero : SameOrZero (.ok none) (.ok (some 0))

/-- The machine hears the same from such answers. -/
theorem SameOrZero.map_heard {answer answer' : Except DeviceError (Option UInt8)}
    (h : SameOrZero answer answer') : answer.map heard = answer'.map heard := by
  cases h with
  | same => rfl
  | zeroNone => rfl
  | noneZero => rfl

namespace Source

variable {σ σ' : Type}

/-- The answer of the source to read number `n` from now on, counted from zero. -/
def answer (source : Source σ) : Nat → σ → Except DeviceError (Option UInt8)
  | 0, input => (source.read input).1
  | n + 1, input => answer source n (source.read input).2

/-- Read by read, the two sources answer the same, or one with the byte zero and the other with no
byte. -/
def Agrees (source : Source σ) (source' : Source σ') (input : σ) (input' : σ') : Prop :=
  ∀ n, SameOrZero (source.answer n input) (source'.answer n input')

/-- Sources that agree go on to agree behind a read. -/
theorem Agrees.next {source : Source σ} {source' : Source σ'} {input : σ} {input' : σ'}
    (h : source.Agrees source' input input') :
    source.Agrees source' (source.read input).2 (source'.read input').2 := by
  intro n
  exact h (n + 1)

end Source

/-- Joined with the same sink, sources that agree make consoles between which the machine cannot
tell. -/
theorem Console.joined_alike_of_agrees {σ σ' τ : Type} (source : Source σ) (source' : Source σ')
    (sink : Sink τ) :
    (joined source sink).Alike (joined source' sink) fun device device' =>
      source.Agrees source' device.1 device'.1 ∧ device.2 = device'.2 := by
  constructor
  case read =>
    intro device device' h
    obtain ⟨hagrees, houtput⟩ := h
    exact ⟨(hagrees 0).map_heard, hagrees.next, houtput⟩
  case write =>
    intro device device' byte h
    obtain ⟨input, output⟩ := device
    obtain ⟨input', output'⟩ := device'
    obtain ⟨hagrees, houtput⟩ := h
    obtain rfl : output = output' := houtput
    exact ⟨rfl, hagrees, rfl⟩

/-- **A program cannot tell the byte zero from no byte.** Take two sources that agree read by read
but for this, the same sink, and the same machine, wherever it is. After any sequence of single
dispatches and of runs, also of those made after a failure, the two machines are the same, and so are
the states of the sinks. Every further call gives the same answer, and any number of further
dispatches write the same bytes. -/
theorem Session.afterCalls_zero_or_none {σ σ' τ : Type} {source : Source σ} {source' : Source σ'}
    {input : σ} {input' : σ'} (h : source.Agrees source' input input') (sink : Sink τ)
    (output : τ) (m : Machine) (calls : List Call) :
    ∃ s s', afterCalls (.joined source sink) calls ⟨m, (input, output)⟩ = s ∧
      afterCalls (.joined source' sink) calls ⟨m, (input', output)⟩ = s' ∧
      s.machine = s'.machine ∧ s.device.2 = s'.device.2 ∧
      (∀ c, (s.call (.joined source sink) c).1 = (s'.call (.joined source' sink) c).1) ∧
      ∀ n, s.writtenBy (.joined source sink) n = s'.writtenBy (.joined source' sink) n := by
  have hio := Console.joined_alike_of_agrees source source' sink
  have hstart : Session.Alike
      (fun device device' => source.Agrees source' device.1 device'.1 ∧ device.2 = device'.2)
      ⟨m, (input, output)⟩ ⟨m, (input', output)⟩ := ⟨rfl, h, rfl⟩
  have hafter := afterCalls_alike hio hstart calls
  refine ⟨_, _, rfl, rfl, hafter.machine, hafter.device.2, ?_, ?_⟩
  · intro c
    exact (call_alike hio hafter c).1
  · intro n
    exact writtenBy_alike hio hafter n

/-- A list that starts with the byte zero, and a callback that at first has no byte, and then the
next of the list. What is written is the cell as it was before the first read, and then twice what
the second has put there. -/
theorem Session.afterCalls_zero_or_none_seven :
    ∃ p s s', Program.compile "+,.,.,." = .ok p ∧
      Source.fed.Agrees .fed (.bytes [0, 7]) (.callback (fun n => [none, some 7][n]?.join) 0) ∧
      afterCalls (.joined .fed .buffer) [.dispatch, .run (fun _ => false) 9]
        ⟨.start p (.blank 1), (.bytes [0, 7], #[])⟩ = s ∧
      afterCalls (.joined .fed .buffer) [.dispatch, .run (fun _ => false) 9]
        ⟨.start p (.blank 1), (.callback (fun n => [none, some 7][n]?.join) 0, #[])⟩ = s' ∧
      s.machine = ⟨p, ⟨#[7], 0⟩, 7, 7⟩ ∧ s.machine = s'.machine ∧
      s.device.2 = #[1, 7, 7] ∧ s.device.2 = s'.device.2 := by
  have hcompile : Program.compile "+,.,.,." =
      .ok ⟨#[⟨0, .perform (.add 1)⟩, ⟨0, .perform .read⟩, ⟨0, .perform .write⟩,
        ⟨0, .perform .read⟩, ⟨0, .perform .write⟩, ⟨0, .perform .read⟩,
        ⟨0, .perform .write⟩]⟩ := by decide +kernel
  have hlater : ∀ n asked, 2 ≤ asked → SameOrZero (Source.fed.answer n (.bytes []))
      (Source.fed.answer n (.callback (fun n => [none, some 7][n]?.join) asked)) := by
    intro n
    induction n with
    | zero =>
      intro asked hasked
      have hnone : [none, some (7 : UInt8)][asked]? = none := List.getElem?_eq_none hasked
      show SameOrZero (.ok none) (.ok ([none, some (7 : UInt8)][asked]?.join))
      rw [hnone]
      exact .same _
    | succ n ih =>
      intro asked hasked
      exact ih (asked + 1) (Nat.le_succ_of_le hasked)
  have hagrees : Source.fed.Agrees .fed (.bytes [0, 7])
      (.callback (fun n => [none, some 7][n]?.join) 0) := by
    intro n
    rcases n with - | - | n
    · exact .zeroNone
    · exact .same _
    · exact hlater n 2 (Nat.le_refl 2)
  obtain ⟨s, s', hs, hs', hmachine, houtput, -, -⟩ := afterCalls_zero_or_none hagrees .buffer #[]
    (.start ⟨#[⟨0, .perform (.add 1)⟩, ⟨0, .perform .read⟩, ⟨0, .perform .write⟩,
      ⟨0, .perform .read⟩, ⟨0, .perform .write⟩, ⟨0, .perform .read⟩, ⟨0, .perform .write⟩]⟩
      (.blank 1)) [.dispatch, .run (fun _ => false) 9]
  refine ⟨_, s, s', hcompile, hagrees, hs, hs', ?_, hmachine, ?_, houtput⟩
  · rw [← hs]
    rfl
  · rw [← hs]
    rfl

end Brainfuck
