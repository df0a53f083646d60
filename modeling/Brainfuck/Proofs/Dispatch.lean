import Brainfuck.Proofs.Cells
import Brainfuck.Session

/-!
# Dispatches and runs of dispatches

What one dispatch does is told by where its move leads: to a cell of the tape, and then the action
is carried out there (`Machine.turn_of_holds`), or off the tape, and then nothing happens
(`Machine.turn_of_not_holds`).

A run is a row of dispatches. One that never runs out of time follows them as far as its budget goes
(`Session.runFrom_of_after`). Dispatching at the end of a program does nothing, so that a row of
dispatches may well be longer than the run.
-/

namespace Brainfuck

namespace Machine

section Turns

variable {p : Program} {t : Tape} {position steps : Nat} {move : Int} {action : Action}

theorem turn_of_holds (hget : p.get? position = some ⟨move, action⟩) (hword : t.InWord move)
    (hholds : t.Holds (t.cursor + move)) {value : UInt8}
    (hvalue : t.cells[(t.cursor + move).toNat]? = some value) :
    turn ⟨p, t, position, steps⟩ =
      act action value ⟨p, ⟨t.cells, (t.cursor + move).toNat⟩, position, steps⟩ := by
  have hcell : Tape.get ⟨t.cells, (t.cursor + move).toNat⟩ = .ok value := by
    unfold Tape.get Tape.cell?
    rw [hvalue]
  rw [turn, hget]
  dsimp only
  rw [Tape.moveBy_of_holds hword hholds]
  dsimp only
  rw [hcell]

theorem turn_of_not_holds (hget : p.get? position = some ⟨move, action⟩) (hword : t.InWord move)
    (hnot : ¬t.Holds (t.cursor + move)) :
    turn ⟨p, t, position, steps⟩ =
      (.failed (.reported (.offTape ⟨t.cursor + move, t.size⟩)), ⟨p, t, position, steps⟩) := by
  rw [turn, hget]
  dsimp only
  rw [Tape.moveBy_of_not_holds hword hnot]
  rfl

theorem turn_of_finished {m : Machine} (h : m.finished = true) : m.turn = (.halted, m) := by
  obtain ⟨p, t, position, steps⟩ := m
  have hend : p.get? position = none := Program.get?_eq_none_iff.mpr (of_decide_eq_true h)
  rw [turn, hend]

theorem receive_eq (byte : Option UInt8) :
    receive byte ⟨p, t, position, steps⟩ = ⟨p, t.receive byte, position + 1, steps + 1⟩ := by
  unfold receive Tape.receive
  cases byte with
  | none => rfl
  | some value =>
    dsimp only
    split <;> rfl

end Turns

end Machine

namespace Session

variable {σ : Type} {io : Console σ} {s s' s'' : Session σ}

theorem dispatch_of_moved {machine machine' : Machine} {device : σ}
    (h : machine.turn = (.moved, machine')) :
    dispatch io ⟨machine, device⟩ = (.ok (), ⟨machine', device⟩) := by
  rw [dispatch, h]

theorem dispatch_of_failed {machine machine' : Machine} {device : σ} {failure : Failure Error}
    (h : machine.turn = (.failed failure, machine')) :
    dispatch io ⟨machine, device⟩ = (.error failure, ⟨machine', device⟩) := by
  rw [dispatch, h]

section Devices

variable {machine machine' : Machine} {device device' : σ} {e : DeviceError}

theorem dispatch_of_read {byte : Option UInt8} (h : machine.turn = (.asks, machine'))
    (hread : io.read device = (.ok byte, device')) :
    dispatch io ⟨machine, device⟩ = (.ok (), ⟨machine'.receive byte, device'⟩) := by
  rw [dispatch, h]
  dsimp only
  rw [hread]

theorem dispatch_of_read_failed (h : machine.turn = (.asks, machine'))
    (hread : io.read device = (.error e, device')) :
    dispatch io ⟨machine, device⟩ = (.error (.reported (.io e)), ⟨machine', device'⟩) := by
  rw [dispatch, h]
  dsimp only
  rw [hread]

theorem dispatch_of_write {byte : UInt8} (h : machine.turn = (.offers byte, machine'))
    (hwrite : io.write byte device = (.ok (), device')) :
    dispatch io ⟨machine, device⟩ = (.ok (), ⟨machine'.advance, device'⟩) := by
  rw [dispatch, h]
  dsimp only
  rw [hwrite]

theorem dispatch_of_write_failed {byte : UInt8} (h : machine.turn = (.offers byte, machine'))
    (hwrite : io.write byte device = (.error e, device')) :
    dispatch io ⟨machine, device⟩ = (.error (.reported (.io e)), ⟨machine', device'⟩) := by
  rw [dispatch, h]
  dsimp only
  rw [hwrite]

end Devices

theorem dispatch_of_finished (h : s.machine.finished = true) : s.dispatch io = (.ok (), s) := by
  obtain ⟨machine, device⟩ := s
  rw [dispatch, Machine.turn_of_finished h]

/-- A dispatch that fails is one of a program that is not finished. -/
theorem finished_of_error {failure : Failure Error} (h : s.dispatch io = (.error failure, s')) :
    s.machine.finished = false := by
  cases hfinished : s.machine.finished with
  | false => rfl
  | true =>
    rw [dispatch_of_finished hfinished] at h
    cases h

/-! ## Rows of dispatches -/

theorem after_succ_of_ok (h : s.dispatch io = (.ok (), s')) (n : Nat) :
    s.after io (n + 1) = s'.after io n := by
  rw [after, h]

theorem after_succ_of_error {failure : Failure Error} (h : s.dispatch io = (.error failure, s'))
    (n : Nat) : s.after io (n + 1) = .error (failure, s') := by
  rw [after, h]

/-- The first of a row of dispatches that go well. -/
theorem exists_dispatch_of_after {n : Nat} (h : s.after io (n + 1) = .ok s') :
    ∃ s₁, s.dispatch io = (.ok (), s₁) ∧ s₁.after io n = .ok s' := by
  rcases hdispatch : s.dispatch io with ⟨failure | ⟨⟩, s₁⟩
  · rw [after_succ_of_error hdispatch] at h
    cases h
  · rw [after_succ_of_ok hdispatch] at h
    exact ⟨s₁, rfl, h⟩

/-- One more dispatch behind a row of them. -/
theorem after_step {n : Nat} (h : s.after io n = .ok s')
    (hdispatch : s'.dispatch io = (.ok (), s'')) : s.after io (n + 1) = .ok s'' := by
  rw [after_add, h]
  exact after_succ_of_ok hdispatch 0

/-- Behind a dispatch that fails there is no other. -/
theorem after_of_error {m n : Nat} {failure : Failure Error} (h : s.after io n = .ok s')
    (hdispatch : s'.dispatch io = (.error failure, s'')) (hlt : n < m) :
    s.after io m = .error (failure, s'') := by
  obtain ⟨more, rfl⟩ := Nat.exists_eq_add_of_le (Nat.succ_le_of_lt hlt)
  rw [Nat.succ_add_eq_add_succ, after_add, h]
  exact after_succ_of_error hdispatch more

theorem after_of_finished {m n : Nat} (h : s.after io n = .ok s')
    (hfinished : s'.machine.finished = true) (hle : n ≤ m) : s.after io m = .ok s' := by
  induction hle with
  | refl => exact h
  | step _ ih => exact after_step ih (dispatch_of_finished hfinished)

/-! ## Runs -/

theorem runFrom_of_finished (h : s.machine.finished = true) (expired : Nat → Bool)
    (count budget : Nat) : runFrom io expired count budget s = (.completed, s) := by
  cases budget with
  | zero => rw [runFrom, if_pos h]
  | succ budget => rw [runFrom, if_pos h]

theorem runFrom_of_error {failure : Failure Error} (h : s.dispatch io = (.error failure, s'))
    (expired : Nat → Bool) (count budget : Nat) :
    runFrom io expired count (budget + 1) s = (.failed failure, s') := by
  rw [runFrom, if_neg (by rw [finished_of_error h]; exact Bool.false_ne_true), h]

/-- Behind a dispatch, a run looks at its clock. -/
theorem runFrom_of_dispatch (hfinished : s.machine.finished = false)
    (h : s.dispatch io = (.ok (), s')) (expired : Nat → Bool) (count budget : Nat) :
    runFrom io expired count (budget + 1) s =
      if expired count then (.timedOut, s') else runFrom io expired (count + 1) budget s' := by
  rw [runFrom, if_neg (by rw [hfinished]; exact Bool.false_ne_true), h]

/-- A run that never runs out of time goes on behind a dispatch. -/
theorem runFrom_of_ok (h : s.dispatch io = (.ok (), s')) (count budget : Nat) :
    runFrom io (fun _ => false) count (budget + 1) s =
      runFrom io (fun _ => false) (count + 1) budget s' := by
  cases hfinished : s.machine.finished with
  | true =>
    -- the dispatch did nothing, and both runs are over
    rw [dispatch_of_finished hfinished, Prod.mk.injEq] at h
    obtain ⟨-, rfl⟩ := h
    rw [runFrom_of_finished hfinished, runFrom_of_finished hfinished]
  | false =>
    rw [runFrom_of_dispatch hfinished h]
    rfl

theorem runFrom_of_after {n : Nat} (h : s.after io n = .ok s') (count budget : Nat) :
    runFrom io (fun _ => false) count (n + budget) s =
      runFrom io (fun _ => false) (count + n) budget s' := by
  induction n generalizing s count with
  | zero =>
    cases h
    rw [Nat.zero_add, Nat.add_zero]
  | succ n ih =>
    obtain ⟨s₁, hdispatch, hafter⟩ := exists_dispatch_of_after h
    rw [Nat.succ_add, runFrom_of_ok hdispatch, ih hafter, Nat.add_assoc, Nat.add_comm 1 n]

/-- **A run that comes to the end of its program** completes, whatever its budget beyond that. -/
theorem run_of_finished {n budget : Nat} (h : s.after io n = .ok s')
    (hfinished : s'.machine.finished = true) (hbudget : n ≤ budget) :
    s.run io (fun _ => false) budget = (.completed, s') := by
  obtain ⟨more, rfl⟩ := Nat.exists_eq_add_of_le hbudget
  unfold run
  rw [runFrom_of_after h, runFrom_of_finished hfinished]

/-- **A run that comes to a dispatch that fails** fails there. -/
theorem run_of_error {n budget : Nat} {failure : Failure Error} (h : s.after io n = .ok s')
    (hdispatch : s'.dispatch io = (.error failure, s'')) (hbudget : n < budget) :
    s.run io (fun _ => false) budget = (.failed failure, s'') := by
  obtain ⟨more, rfl⟩ := Nat.exists_eq_add_of_le (Nat.succ_le_of_lt hbudget)
  unfold run
  rw [Nat.succ_add_eq_add_succ, runFrom_of_after h, runFrom_of_error hdispatch]

/-- A run whose budget is used up before the end of its program. -/
theorem run_of_not_finished {n : Nat} (h : s.after io n = .ok s')
    (hfinished : s'.machine.finished = false) :
    s.run io (fun _ => false) n = (.suspended, s') := by
  have hrun := runFrom_of_after h 0 0
  rw [Nat.add_zero] at hrun
  unfold run
  rw [hrun, runFrom, if_neg (by rw [hfinished]; exact Bool.false_ne_true)]

end Session

end Brainfuck
