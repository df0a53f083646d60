import Brainfuck.Proofs.Turns
import Brainfuck.Session.Call

/-!
# Running in slices

A run that is cut short by its clock, and then taken up again by another run or by single
dispatches, comes to the same as one that is never cut short. All calls are rows of dispatches
(`Session.exists_executes_of_call`): each leaves the session behind some opcodes that have been
executed, and either goes on from there, or has come to the end of the program, or fails in the next
dispatch. None is lost at a cut and none is made twice, so the rows add up
(`Session.exists_after_of_inSlices`).

Main result: `Session.run_inSlices`.
-/

namespace Brainfuck.Session

variable {σ : Type} {io : Console σ} {s s' s'' : Session σ} {ending : Ending}

/-- Dispatches lead from one session to the other, and `k` opcodes are executed by `k` of them. -/
structure Executes (io : Console σ) (k : Nat) (s s' : Session σ) : Prop where
  after : s.after io k = .ok s'
  steps : s'.machine.steps = s.machine.steps + k

theorem Executes.refl (s : Session σ) : s.Executes io 0 s := ⟨rfl, rfl⟩

/-- One more dispatch in front of a row of them. -/
theorem Executes.head {k : Nat} (hdispatch : s.dispatch io = (.ok (), s'))
    (hfinished : s.machine.finished = false) (h : s'.Executes io k s'') :
    s.Executes io (k + 1) s'' := by
  refine ⟨(after_succ_of_ok hdispatch k).trans h.after, ?_⟩
  rw [h.steps, steps_of_ok hdispatch hfinished, Nat.add_assoc, Nat.add_comm 1 k]

/-- How a call that has come to `s` can end. -/
inductive EndsAs (io : Console σ) (s : Session σ) : Ending → Session σ → Prop
  | completed (hfinished : s.machine.finished = true) : EndsAs io s .completed s
  | failed {failure : Failure Error} {s' : Session σ}
      (hdispatch : s.dispatch io = (.error failure, s')) : EndsAs io s (.failed failure) s'
  | goesOn {ending : Ending} (hover : ending.isOver = false) : EndsAs io s ending s

/-- How a run can go on that has a budget of `budget + 1`, and how many opcodes it executes. -/
inductive RunOf (io : Console σ) (expired : Nat → Bool) (count budget : Nat) (s : Session σ) :
    Ending → Session σ → Nat → Prop
  | finished (hfinished : s.machine.finished = true) :
      RunOf io expired count budget s .completed s 0
  | failed {failure : Failure Error} {s' : Session σ}
      (hdispatch : s.dispatch io = (.error failure, s')) :
      RunOf io expired count budget s (.failed failure) s' 0
  | timedOut {s' : Session σ} (hfinished : s.machine.finished = false)
      (hdispatch : s.dispatch io = (.ok (), s')) (hexpired : expired count = true) :
      RunOf io expired count budget s .timedOut s' 1
  | goesOn {s₁ s' : Session σ} {ending : Ending} (hfinished : s.machine.finished = false)
      (hdispatch : s.dispatch io = (.ok (), s₁)) (hexpired : expired count = false)
      (hrest : runFrom io expired (count + 1) budget s₁ = (ending, s')) :
      RunOf io expired count budget s ending s' (executedFrom io expired (count + 1) budget s₁ + 1)

theorem runFrom_cases {expired : Nat → Bool} {count budget : Nat}
    (h : runFrom io expired count (budget + 1) s = (ending, s')) :
    ∃ k, executedFrom io expired count (budget + 1) s = k ∧
      RunOf io expired count budget s ending s' k := by
  refine ⟨_, rfl, ?_⟩
  rw [executedFrom]
  cases hfinished : s.machine.finished with
  | true =>
    rw [runFrom_of_finished hfinished] at h
    cases h
    exact .finished hfinished
  | false =>
    rw [if_neg Bool.false_ne_true]
    rcases hdispatch : s.dispatch io with ⟨failure | ⟨⟩, s₁⟩
    · rw [runFrom_of_error hdispatch] at h
      cases h
      exact .failed hdispatch
    · rw [runFrom_of_dispatch hfinished hdispatch] at h
      cases hexpired : expired count with
      | true =>
        rw [hexpired] at h
        cases h
        exact .timedOut hfinished hdispatch hexpired
      | false =>
        rw [hexpired] at h
        exact .goesOn hfinished hdispatch hexpired h

/-- A run is a row of dispatches that execute an opcode each, and perhaps one more that fails. -/
theorem exists_executes_of_runFrom {expired : Nat → Bool} {count budget : Nat}
    (h : runFrom io expired count budget s = (ending, s')) :
    ∃ s₁, s.Executes io (executedFrom io expired count budget s) s₁ ∧ EndsAs io s₁ ending s' := by
  induction budget generalizing s count with
  | zero =>
    refine ⟨s, .refl s, ?_⟩
    rw [runFrom] at h
    split at h
    next hfinished =>
      cases h
      exact .completed hfinished
    next =>
      cases h
      exact .goesOn rfl
  | succ budget ih =>
    obtain ⟨k, hk, hrun⟩ := runFrom_cases h
    rw [hk]
    cases hrun with
    | finished hfinished => exact ⟨_, .refl _, .completed hfinished⟩
    | failed hdispatch => exact ⟨s, .refl s, .failed hdispatch⟩
    | timedOut hfinished hdispatch =>
      exact ⟨s', .head hdispatch hfinished (.refl s'), .goesOn rfl⟩
    | goesOn hfinished hdispatch hexpired hrest =>
      obtain ⟨s₂, hexecutes, hends⟩ := ih hrest
      exact ⟨s₂, .head hdispatch hfinished hexecutes, hends⟩

/-- **A run that fails** fails in the dispatch behind those that have executed an opcode. -/
theorem exists_executes_of_failed {expired : Nat → Bool} {count budget : Nat}
    {failure : Failure Error} (h : runFrom io expired count budget s = (.failed failure, s')) :
    ∃ s₀, s.Executes io (executedFrom io expired count budget s) s₀ ∧
      s₀.dispatch io = (.error failure, s') := by
  obtain ⟨s₀, hexecutes, hends⟩ := exists_executes_of_runFrom h
  cases hends with
  | failed hdispatch => exact ⟨s₀, hexecutes, hdispatch⟩
  | goesOn hover => cases hover

theorem exists_after_of_runFrom {expired : Nat → Bool} {count budget : Nat}
    {failure : Failure Error} (h : runFrom io expired count budget s = (.failed failure, s')) :
    ∃ n s₀, s.after io n = .ok s₀ ∧ s₀.dispatch io = (.error failure, s') := by
  obtain ⟨s₀, hexecutes, hdispatch⟩ := exists_executes_of_failed h
  exact ⟨_, s₀, hexecutes.after, hdispatch⟩

/-- In a run from the start, the number of these dispatches is what the machine has counted. -/
theorem exists_after_steps_of_runFrom {expired : Nat → Bool} {count budget : Nat}
    {failure : Failure Error} (h : runFrom io expired count budget s = (.failed failure, s'))
    (hsteps : s.machine.steps = 0) :
    ∃ s₀, s.after io s'.machine.steps = .ok s₀ ∧ s₀.dispatch io = (.error failure, s') := by
  obtain ⟨s₀, hexecutes, hdispatch⟩ := exists_executes_of_failed h
  have hcount := hexecutes.steps
  rw [hsteps, Nat.zero_add, ← (unchanged_of_error hdispatch).2] at hcount
  rw [hcount]
  exact ⟨s₀, hexecutes.after, hdispatch⟩

/-- Without a time limit, time is never up. -/
theorem runFrom_ne_timedOut (s : Session σ) (count budget : Nat) :
    (s.runFrom io (fun _ => false) count budget).1 ≠ .timedOut := by
  intro h
  induction budget generalizing s count with
  | zero =>
    rw [runFrom] at h
    split at h
    · cases h
    · cases h
  | succ budget ih =>
    rcases hdispatch : s.dispatch io with ⟨failure | ⟨⟩, s₁⟩
    · rw [runFrom_of_error hdispatch] at h
      cases h
    · rw [runFrom_of_ok hdispatch] at h
      exact ih s₁ (count + 1) h

/-- The clock is not looked at before an opcode has been executed. -/
theorem one_le_executedFrom {expired : Nat → Bool} {count budget : Nat}
    (h : runFrom io expired count budget s = (.timedOut, s')) :
    1 ≤ executedFrom io expired count budget s := by
  cases budget with
  | zero =>
    rw [runFrom] at h
    split at h <;> cases h
  | succ budget =>
    obtain ⟨k, hk, hrun⟩ := runFrom_cases h
    rw [hk]
    cases hrun with
    | timedOut => exact Nat.le_refl 1
    | goesOn => exact Nat.le_add_left 1 _

/-- A call is a row of dispatches that execute an opcode each, and perhaps one more that fails. -/
theorem exists_executes_of_call {c : Call} (h : s.call io c = (ending, s')) :
    ∃ s₁, s.Executes io (s.executedBy io c) s₁ ∧ EndsAs io s₁ ending s' := by
  cases c with
  | run expired budget => exact exists_executes_of_runFrom h
  | dispatch =>
    unfold call at h
    dsimp only at h
    unfold executedBy
    dsimp only
    rw [executedFrom]
    by_cases hfinished : s.machine.finished = true
    · rw [dispatch_of_finished hfinished] at h
      rw [if_pos hfinished]
      cases h
      exact ⟨s, .refl s, .goesOn rfl⟩
    · rw [if_neg hfinished]
      rcases hdispatch : s.dispatch io with ⟨failure | ⟨⟩, s₁⟩
      · rw [hdispatch] at h
        cases h
        exact ⟨s, .refl s, .failed hdispatch⟩
      · rw [hdispatch] at h
        cases h
        exact ⟨_, .head hdispatch (Bool.of_not_eq_true hfinished) (.refl _), .goesOn rfl⟩

/-- Calls made until one ends the program are one row of dispatches. -/
theorem exists_after_of_inSlices {calls : List Call} (h : inSlices io calls s = (ending, s'))
    (hover : ending.isOver = true) :
    ∃ k s₁, s.after io k = .ok s₁ ∧ EndsAs io s₁ ending s' := by
  induction calls generalizing s with
  | nil =>
    cases h
    cases hover
  | cons c later ih =>
    rcases hcall : s.call io c with ⟨answer, s₁⟩
    obtain ⟨s₂, hexecutes, hends⟩ := exists_executes_of_call hcall
    rw [inSlices, hcall] at h
    dsimp only at h
    by_cases hanswer : answer.isOver = true
    · rw [if_pos hanswer] at h
      cases h
      exact ⟨_, s₂, hexecutes.after, hends⟩
    · rw [if_neg hanswer] at h
      -- the call went on from where it came to, and the later calls start there
      have hsame : s₁ = s₂ := by
        cases hends with
        | completed | failed => exact absurd rfl hanswer
        | goesOn => rfl
      subst hsame
      obtain ⟨k, s₃, hafter, hends'⟩ := ih h
      refine ⟨s.executedBy io c + k, s₃, ?_, hends'⟩
      rw [after_add, hexecutes.after]
      exact hafter

/-- A run without a time limit ends as any row of dispatches that it makes. -/
theorem run_of_endsAs {k : Nat} (hafter : s.after io k = .ok s') (h : EndsAs io s' ending s'')
    (hover : ending.isOver = true) {budget : Nat} (hbudget : k < budget) :
    s.run io (fun _ => false) budget = (ending, s'') := by
  cases h with
  | completed hfinished => exact run_of_finished hafter hfinished (Nat.le_of_lt hbudget)
  | failed hdispatch => exact run_of_error hafter hdispatch hbudget
  | goesOn hover' =>
    rw [hover'] at hover
    cases hover

/-- **Running in slices changes nothing.** A run that is out of time has executed at least one
opcode, and has come to where a run without a time limit is after as many. Runs, each with a clock
of its own, and single dispatches that are made until one of them completes the program or fails end
just as one run without a time limit does. -/
theorem run_inSlices (io : Console σ) (s : Session σ) :
    (∀ expired budget s', s.run io expired budget = (.timedOut, s') →
      ∃ k, 1 ≤ k ∧ s.after io k = .ok s' ∧ s'.machine.steps = s.machine.steps + k ∧
        s.run io (fun _ => false) k =
          (if s'.machine.finished then .completed else .suspended, s')) ∧
    (∀ calls ending s', inSlices io calls s = (ending, s') → ending.isOver = true →
      ∃ k, ∀ budget, k ≤ budget → s.run io (fun _ => false) budget = (ending, s')) := by
  constructor
  · intro expired budget s' h
    obtain ⟨s₁, hexecutes, hends⟩ := exists_executes_of_runFrom h
    cases hends
    refine ⟨_, one_le_executedFrom h, hexecutes.after, hexecutes.steps, ?_⟩
    cases hfinished : s'.machine.finished with
    | true => exact run_of_finished hexecutes.after hfinished (Nat.le_refl _)
    | false => exact run_of_not_finished hexecutes.after hfinished
  · intro calls ending s' h hover
    obtain ⟨k, s₁, hafter, hends⟩ := exists_after_of_inSlices h hover
    exact ⟨k + 1, fun budget hbudget => run_of_endsAs hafter hends hover hbudget⟩

/-- The slices of `++[.-]`: a dispatch, a run whose time is up behind the write, one whose time is
up at once, and one that comes to the end. -/
theorem run_inSlices_four :
    ∃ (p : Program) (s s' : Session Exchange),
      p = ⟨#[⟨0, .perform (.add 2)⟩, ⟨0, .beginLoop 4⟩, ⟨0, .perform .write⟩,
        ⟨0, .perform (.sub 1)⟩, ⟨0, .endLoop 1⟩]⟩ ∧
      s = ⟨.start p ⟨#[0], 0⟩, .start (.bytes [])⟩ ∧
      s' = ⟨⟨p, ⟨#[0], 0⟩, 5, 8⟩, ⟨.bytes [], #[2, 1]⟩⟩ ∧
      (∃ s₁, s.run .fed (fun n => n = 2) 9 = (.timedOut, s₁) ∧
        ∃ k, 1 ≤ k ∧ s.after .fed k = .ok s₁ ∧ s₁.machine.steps = k) ∧
      inSlices .fed [.dispatch, .run (fun n => n = 1) 9, .run (fun _ => true) 9,
        .run (fun _ => false) 9] s = (.completed, s') ∧
      ∃ k, ∀ budget, k ≤ budget → s.run .fed (fun _ => false) budget = (.completed, s') := by
  obtain ⟨htimedOut, hslices⟩ := run_inSlices .fed
    ⟨.start ⟨#[⟨0, .perform (.add 2)⟩, ⟨0, .beginLoop 4⟩, ⟨0, .perform .write⟩,
      ⟨0, .perform (.sub 1)⟩, ⟨0, .endLoop 1⟩]⟩ ⟨#[0], 0⟩, .start (.bytes [])⟩
  obtain ⟨k, hpos, hafter, hsteps, -⟩ := htimedOut (fun n => n = 2) 9 _ rfl
  have hwhole := hslices [.dispatch, .run (fun n => n = 1) 9, .run (fun _ => true) 9,
    .run (fun _ => false) 9] .completed _ rfl rfl
  exact ⟨_, _, _, rfl, rfl, rfl, ⟨_, rfl, k, hpos, hafter, hsteps.trans (Nat.zero_add k)⟩, rfl,
    hwhole⟩

end Brainfuck.Session
