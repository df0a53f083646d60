import Brainfuck.Interpreter
import Brainfuck.Proofs.Acceptance
import Brainfuck.Proofs.Slices

/-!
# How runs end

A run looks at its clock behind every opcode that it executes, and the first look at which time is up
is its last (`Session.EndedAs`, `Session.runFrom_ended`). Which way a run has ended is told by that
look and by whether an opcode is left: it is out of time if time was up at the last look, and it has
completed the program if no opcode is left and time was not up.

There is a look behind the last opcode of the program too, where nothing is left to be cut short. So
a run can be out of time though it has finished the program (`Session.run_timedOut_at_end`). This is
the only case in which its ending does not tell whether the program is finished.

Main result: `Session.run_status`.
-/

namespace Brainfuck.Session

variable {σ : Type} {io : Console σ} {expired : Nat → Bool} {count budget : Nat}
  {s s' : Session σ} {ending : Ending}

/-- A dispatch that fails does not come to the end of the program. -/
theorem not_finished_of_error {failure : Failure Error}
    (h : s.dispatch io = (.error failure, s')) : s'.machine.finished = false := by
  have hfinished := finished_of_error h
  unfold Machine.finished at hfinished ⊢
  rw [program_of_dispatch h, (unchanged_of_error h).1]
  exact hfinished

/-- How a run from `s` to `s'` can end that executes some number of opcodes and whose looks at the
clock are numbered from `count`. Time is up at no look but the last. -/
inductive EndedAs (io : Console σ) (expired : Nat → Bool) (count : Nat) (s s' : Session σ) :
    Nat → Ending → Prop
  | completed {k : Nat} (hlooks : ∀ j < k, expired (count + j) = false)
      (hfinished : s'.machine.finished = true) : EndedAs io expired count s s' k .completed
  | timedOut {k : Nat} {s₁ : Session σ} (hlooks : ∀ j < k, expired (count + j) = false)
      (hlast : expired (count + k) = true) (hafter : s.after io k = .ok s₁)
      (hleft : s₁.machine.finished = false) (hdispatch : s₁.dispatch io = (.ok (), s')) :
      EndedAs io expired count s s' (k + 1) .timedOut
  | brokenOff {k : Nat} {ending : Ending} (hlooks : ∀ j < k, expired (count + j) = false)
      (hleft : s'.machine.finished = false) (hending : ending.succeeded = false) :
      EndedAs io expired count s s' k ending

/-- One more look in front, at which there was time. -/
theorem forall_looks_succ {k : Nat} (hfirst : expired count = false)
    (hlooks : ∀ j < k, expired (count + 1 + j) = false) :
    ∀ j < k + 1, expired (count + j) = false := by
  intro j hj
  cases j with
  | zero => exact hfirst
  | succ j =>
    have hlook := hlooks j (Nat.lt_of_succ_lt_succ hj)
    rwa [Nat.add_assoc, Nat.add_comm 1 j] at hlook

/-- One more dispatch in front of a run, behind which there was time. -/
theorem EndedAs.head {k : Nat} {s₁ : Session σ} (hdispatch : s.dispatch io = (.ok (), s₁))
    (hfirst : expired count = false) (h : EndedAs io expired (count + 1) s₁ s' k ending) :
    EndedAs io expired count s s' (k + 1) ending := by
  cases h with
  | completed hlooks hfinished => exact .completed (forall_looks_succ hfirst hlooks) hfinished
  | brokenOff hlooks hleft hending =>
    exact .brokenOff (forall_looks_succ hfirst hlooks) hleft hending
  | timedOut hlooks hlast hafter hleft hrest =>
    refine .timedOut (forall_looks_succ hfirst hlooks) ?_
      ((after_succ_of_ok hdispatch _).trans hafter) hleft hrest
    rwa [Nat.add_assoc, Nat.add_comm 1 _] at hlast

/-- **Every run ends in one of these ways.** -/
theorem runFrom_ended (h : runFrom io expired count budget s = (ending, s')) :
    EndedAs io expired count s s' (executedFrom io expired count budget s) ending := by
  -- there is no look before the first opcode
  have hnone : ∀ j < 0, expired (count + j) = false := fun j hj => absurd hj (Nat.not_lt_zero j)
  induction budget generalizing s count with
  | zero =>
    rw [executedFrom]
    cases hfinished : s.machine.finished with
    | true =>
      rw [runFrom_of_finished hfinished] at h
      cases h
      exact .completed hnone hfinished
    | false =>
      rw [runFrom, hfinished] at h
      cases h
      exact .brokenOff hnone hfinished rfl
  | succ budget ih =>
    obtain ⟨k, hk, hrun⟩ := runFrom_cases h
    rw [hk]
    cases hrun with
    | finished hfinished => exact .completed hnone hfinished
    | failed hdispatch => exact .brokenOff hnone (not_finished_of_error hdispatch) rfl
    | timedOut hfinished hdispatch hexpired => exact .timedOut hnone hexpired rfl hfinished hdispatch
    | goesOn hfinished hdispatch hexpired hrest =>
      exact .head hdispatch hexpired (ih hrest fun j hj => absurd hj (Nat.not_lt_zero j))

/-- A run counts the opcodes that it executes. -/
theorem steps_of_runFrom (h : runFrom io expired count budget s = (ending, s')) :
    s'.machine.steps = s.machine.steps + executedFrom io expired count budget s := by
  obtain ⟨s₁, hexecutes, hends⟩ := exists_executes_of_runFrom h
  cases hends with
  | completed => exact hexecutes.steps
  | goesOn => exact hexecutes.steps
  | failed hdispatch => exact (unchanged_of_error hdispatch).2.trans hexecutes.steps

/-- Time is up at the look at the clock behind the last opcode that a run executes. -/
def OutOfTime (io : Console σ) (expired : Nat → Bool) (budget : Nat) (s : Session σ) : Prop :=
  ∃ k, (s.run io expired budget).2.machine.steps = s.machine.steps + (k + 1) ∧ expired k = true

theorem outOfTime_iff :
    s.OutOfTime io expired budget ↔
      ∃ k, executedFrom io expired 0 budget s = k + 1 ∧ expired k = true := by
  have hsteps : (s.run io expired budget).2.machine.steps =
      s.machine.steps + executedFrom io expired 0 budget s := steps_of_runFrom rfl
  unfold OutOfTime
  simp only [hsteps, Nat.add_left_cancel_iff]

/-- As long as there was time at every look, a run is not out of time. -/
theorem not_outOfTime
    (h : ∀ j < executedFrom io expired 0 budget s, expired (0 + j) = false) :
    ¬s.OutOfTime io expired budget := by
  rw [outOfTime_iff]
  intro hout
  obtain ⟨k, hk, hexpired⟩ := hout
  have hlook := h k (by omega)
  rw [Nat.zero_add, hexpired] at hlook
  cases hlook

/-- **What the ending of a run tells.** It is out of time exactly if time was up at its last look at
the clock, and it has completed the program exactly if no opcode is left and time was not up at that
look. A program that is finished beforehand is completed, whatever the clock says, and a run that is
out of time had an opcode left before its last dispatch. So whenever time is not up just behind the
last opcode of the program, a run that succeeds has completed it exactly if it is finished. -/
theorem run_status (io : Console σ) (expired : Nat → Bool) (budget : Nat) (s : Session σ) :
    ((s.run io expired budget).1 = .timedOut ↔ s.OutOfTime io expired budget) ∧
    ((s.run io expired budget).1 = .completed ↔
      (s.run io expired budget).2.machine.finished = true ∧ ¬s.OutOfTime io expired budget) ∧
    (s.machine.finished = true → s.run io expired budget = (.completed, s)) ∧
    ((s.run io expired budget).1 = .timedOut → ∃ k s₁, s.after io k = .ok s₁ ∧
      s₁.machine.finished = false ∧ s₁.dispatch io = (.ok (), (s.run io expired budget).2) ∧
      expired k = true ∧ ∀ j < k, expired j = false) := by
  rcases hrun : s.run io expired budget with ⟨ending, s'⟩
  have hbefore : s.machine.finished = true → (ending, s') = (.completed, s) := by
    intro hfinished
    exact hrun.symm.trans (runFrom_of_finished hfinished expired 0 budget)
  have hended := runFrom_ended hrun
  have hnot : (∀ j < executedFrom io expired 0 budget s, expired (0 + j) = false) →
      ¬s.OutOfTime io expired budget := not_outOfTime
  have hout : s.OutOfTime io expired budget ↔
      ∃ k, executedFrom io expired 0 budget s = k + 1 ∧ expired k = true := outOfTime_iff
  generalize executedFrom io expired 0 budget s = k at hended hnot hout
  cases hended with
  | completed hlooks hfinished =>
    exact ⟨iff_of_false nofun (hnot hlooks), iff_of_true rfl ⟨hfinished, hnot hlooks⟩, hbefore,
      nofun⟩
  | brokenOff hlooks hleft hending =>
    have htimedOut : ending ≠ .timedOut := by
      rintro rfl
      cases hending
    have hcompleted : ending ≠ .completed := by
      rintro rfl
      cases hending
    refine ⟨iff_of_false htimedOut (hnot hlooks), iff_of_false hcompleted ?_, hbefore,
      fun h => absurd h htimedOut⟩
    intro h
    exact Bool.false_ne_true (hleft.symm.trans h.1)
  | @timedOut k s₁ hlooks hlast hafter hleft hdispatch =>
    simp only [Nat.zero_add] at hlooks hlast
    have hout : s.OutOfTime io expired budget := hout.mpr ⟨k, rfl, hlast⟩
    refine ⟨iff_of_true rfl hout, iff_of_false nofun fun h => h.2 hout, hbefore, ?_⟩
    intro _
    exact ⟨k, s₁, hafter, hleft, hdispatch, hlast, hlooks⟩

/-- The only opcode of a program is executed, and time is up when it is done, whether the limit
passes then or has passed from the start. The run is out of time, but the program is finished. -/
theorem run_timedOut_at_end :
    ∃ p s', Program.compile "+" = .ok p ∧
      Session.run .fed (Clock.expired (.steady 100) (some 100)) 1
        ⟨.start p (.blank 1), .start (.bytes [])⟩ = (.timedOut, s') ∧
      Session.run .fed (Clock.expired (.steady 100) (some 0)) 1
        ⟨.start p (.blank 1), .start (.bytes [])⟩ = (.timedOut, s') ∧
      s'.machine.finished = true := by
  have hcompile : Program.compile "+" = .ok ⟨#[⟨0, .perform (.add 1)⟩]⟩ := by decide +kernel
  exact ⟨_, _, hcompile, rfl, rfl, rfl⟩

end Brainfuck.Session
