import Brainfuck.Proofs.Dispatch

/-!
# Turns

What one turn of the machine can be, said once for all: there is no opcode left, or the move of the
opcode is refused, or the cursor lands on a cell and the opcode acts there (`Machine.turn_cases`).
What an opcode can do where it has landed is `Machine.act_cases`. An effect that neither reads nor
writes is told by what it makes of the tape, without a machine (`Tape.applied`).

A turn that executes an opcode counts it, and every other turn stays where it is in the program
(`Machine.turn_counts`). So a dispatch that goes well counts one opcode, unless the program is
finished, and one that fails counts none (`Session.steps_of_ok`, `Session.unchanged_of_error`).
-/

namespace Brainfuck

/-- The effect neither reads nor writes. -/
def Effect.isSilent : Effect → Bool
  | read | write => false
  | add _ | sub _ | clear | copy _ | scan _ => true

/-- What a silent effect makes of the tape, where the cell under the cursor has the given value. -/
def Tape.applied (t : Tape) (effect : Effect) (value : UInt8) :
    Except (Failure OffTape) Unit × Tape :=
  match effect with
  | .add count => (.ok (), t.store (value + UInt8.ofNat count))
  | .sub count => (.ok (), t.store (value - UInt8.ofNat count))
  | .clear => (.ok (), t.store 0)
  | .copy targets =>
    if value = 0 then (.ok (), t)
    else
      match t.spread value targets with
      | (.ok (), t) => (.ok (), t.store 0)
      | (.error failure, t) => (.error failure, t)
  | .scan toward => (.ok (), t.scan toward)
  | .read | .write => (.ok (), t)

namespace Tape

variable {t t' : Tape} {offset : Int}

theorem position?_eq_ok {index : Nat} (h : t.position? offset = .ok index) :
    (index : Int) = t.cursor + offset ∧ index < t.size := by
  unfold position? at h
  dsimp only at h
  split at h
  · cases h
  · split at h
    · cases h
      omega
    · cases h

/-- A move that is not refused leads to a cell, and the cells stay as they are. -/
theorem moveBy_eq_ok (h : t.moveBy offset = .ok t') :
    (t'.cursor : Int) = t.cursor + offset ∧ t'.cursor < t'.size ∧ t'.cells = t.cells := by
  unfold moveBy at h
  split at h
  next index hposition =>
    cases h
    obtain ⟨heq, hlt⟩ := position?_eq_ok hposition
    exact ⟨heq, hlt, rfl⟩
  next => cases h

/-- The only effect that a tape can refuse is a copy, and only of a value that is not zero. -/
theorem spread_of_applied_error {effect : Effect} {value : UInt8} {failure : Failure OffTape}
    (h : t.applied effect value = (.error failure, t')) :
    ∃ targets, effect = .copy targets ∧ value ≠ 0 ∧
      t.spread value targets = (.error failure, t') := by
  cases effect with
  | copy targets =>
    unfold applied at h
    dsimp only at h
    split at h
    next => cases h
    next hvalue =>
      split at h
      next => cases h
      next failure' t₁ hspread =>
        cases h
        exact ⟨targets, rfl, hvalue, hspread⟩
  | _ => cases h

theorem get_eq_ok_iff {value : UInt8} : t.get = .ok value ↔ t.cells[t.cursor]? = some value := by
  unfold get cell?
  cases t.cells[t.cursor]? with
  | none => exact ⟨nofun, nofun⟩
  | some value' => rw [Except.ok.injEq, Option.some.injEq]

theorem exists_cell (h : t.cursor < t.size) : ∃ value, t.cells[t.cursor]? = some value :=
  ⟨_, Array.getElem?_eq_getElem h⟩

end Tape

namespace Machine

variable {p : Program} {t t' : Tape} {position steps : Nat} {r : Turn} {m' : Machine}

/-! ## What a turn can be -/

/-- What a turn of the machine `⟨p, t, position, steps⟩` can be. -/
inductive TurnOf (p : Program) (t : Tape) (position steps : Nat) : Turn → Machine → Prop
  | halted (hend : p.get? position = none) :
      TurnOf p t position steps .halted ⟨p, t, position, steps⟩
  | refused {move : Int} {action : Action} {failure : Failure OffTape}
      (hget : p.get? position = some ⟨move, action⟩) (hmove : t.moveBy move = .error failure) :
      TurnOf p t position steps (.failed (failure.map .offTape)) ⟨p, t, position, steps⟩
  | landed {move : Int} {action : Action} {t' : Tape} {value : UInt8} {r : Turn} {m' : Machine}
      (hget : p.get? position = some ⟨move, action⟩) (hmove : t.moveBy move = .ok t')
      (hcell : t'.cells[t'.cursor]? = some value)
      (hact : act action value ⟨p, t', position, steps⟩ = (r, m')) :
      TurnOf p t position steps r m'

/-- Where the cursor lands, the opcode acts. -/
theorem turn_of_moveBy {move : Int} {action : Action} {value : UInt8}
    (hget : p.get? position = some ⟨move, action⟩) (hmove : t.moveBy move = .ok t')
    (hcell : t'.cells[t'.cursor]? = some value) :
    turn ⟨p, t, position, steps⟩ = act action value ⟨p, t', position, steps⟩ := by
  rw [turn, hget]
  dsimp only
  rw [hmove]
  dsimp only
  rw [Tape.get_eq_ok_iff.mpr hcell]

/-- Where the move is refused, nothing happens. -/
theorem turn_of_moveBy_error {move : Int} {action : Action} {failure : Failure OffTape}
    (hget : p.get? position = some ⟨move, action⟩) (hmove : t.moveBy move = .error failure) :
    turn ⟨p, t, position, steps⟩ =
      (.failed (failure.map .offTape), ⟨p, t, position, steps⟩) := by
  rw [turn, hget]
  dsimp only
  rw [hmove]

theorem turn_cases (h : turn ⟨p, t, position, steps⟩ = (r, m')) :
    TurnOf p t position steps r m' := by
  cases hget : p.get? position with
  | none =>
    rw [turn, hget] at h
    cases h
    exact .halted hget
  | some opcode =>
    obtain ⟨move, action⟩ := opcode
    cases hmove : t.moveBy move with
    | error failure =>
      rw [turn_of_moveBy_error hget hmove] at h
      cases h
      exact .refused hget hmove
    | ok t' =>
      obtain ⟨value, hcell⟩ := Tape.exists_cell (Tape.moveBy_eq_ok hmove).2.1
      rw [turn_of_moveBy hget hmove hcell] at h
      exact .landed hget hmove hcell h

/-! ## What an opcode can do where it has landed -/

/-- What `action` can do at the cursor of `t`, where the cell has the given value. -/
inductive ActOf (p : Program) (t : Tape) (position steps : Nat) (value : UInt8) :
    Action → Turn → Machine → Prop
  | beginLoop (partner : Nat) :
      ActOf p t position steps value (.beginLoop partner) .moved
        ⟨p, t, if value = 0 then partner + 1 else position + 1, steps + 1⟩
  | endLoop (partner : Nat) :
      ActOf p t position steps value (.endLoop partner) .moved
        ⟨p, t, if value = 0 then position + 1 else partner + 1, steps + 1⟩
  | reads : ActOf p t position steps value (.perform .read) .asks ⟨p, t, position, steps⟩
  | writes :
      ActOf p t position steps value (.perform .write) (.offers value) ⟨p, t, position, steps⟩
  | applied {effect : Effect} {t' : Tape} (hsilent : effect.isSilent = true)
      (h : t.applied effect value = (.ok (), t')) :
      ActOf p t position steps value (.perform effect) .moved ⟨p, t', position + 1, steps + 1⟩
  | refused {effect : Effect} {failure : Failure OffTape} {t' : Tape}
      (hsilent : effect.isSilent = true) (h : t.applied effect value = (.error failure, t')) :
      ActOf p t position steps value (.perform effect) (.failed (failure.map .offTape))
        ⟨p, t', position, steps⟩

variable {effect : Effect} {action : Action} {value : UInt8}

theorem act_beginLoop (partner : Nat) :
    act (.beginLoop partner) value ⟨p, t, position, steps⟩ =
      (.moved, ⟨p, t, if value = 0 then partner + 1 else position + 1, steps + 1⟩) := by
  show (Turn.moved, if value = 0 then _ else _) = _
  split <;> rfl

theorem act_endLoop (partner : Nat) :
    act (.endLoop partner) value ⟨p, t, position, steps⟩ =
      (.moved, ⟨p, t, if value = 0 then position + 1 else partner + 1, steps + 1⟩) := by
  show (Turn.moved, if value = 0 then _ else _) = _
  split <;> rfl

theorem perform_of_applied (hsilent : effect.isSilent = true)
    (h : t.applied effect value = (.ok (), t')) :
    perform effect value ⟨p, t, position, steps⟩ =
      (.moved, ⟨p, t', position + 1, steps + 1⟩) := by
  cases effect with
  | copy targets =>
    unfold Tape.applied at h
    dsimp only at h
    unfold perform copy
    dsimp only
    by_cases hvalue : value = 0
    · rw [if_pos hvalue] at h ⊢
      cases h
      rfl
    · rw [if_neg hvalue] at h ⊢
      rcases hspread : t.spread value targets with ⟨failure | ⟨⟩, t₁⟩
      · rw [hspread] at h
        cases h
      · rw [hspread] at h
        cases h
        rfl
  | read => cases hsilent
  | write => cases hsilent
  | _ =>
    cases h
    rfl

theorem perform_of_applied_error {failure : Failure OffTape}
    (h : t.applied effect value = (.error failure, t')) :
    perform effect value ⟨p, t, position, steps⟩ =
      (.failed (failure.map .offTape), ⟨p, t', position, steps⟩) := by
  cases effect with
  | copy targets =>
    unfold Tape.applied at h
    dsimp only at h
    unfold perform copy
    dsimp only
    by_cases hvalue : value = 0
    · rw [if_pos hvalue] at h
      cases h
    · rw [if_neg hvalue] at h ⊢
      rcases hspread : t.spread value targets with ⟨failure' | ⟨⟩, t₁⟩
      · rw [hspread] at h
        cases h
        rfl
      · rw [hspread] at h
        cases h
  | _ => cases h

theorem act_cases (h : act action value ⟨p, t, position, steps⟩ = (r, m')) :
    ActOf p t position steps value action r m' := by
  cases action with
  | beginLoop partner =>
    rw [act_beginLoop] at h
    cases h
    exact .beginLoop partner
  | endLoop partner =>
    rw [act_endLoop] at h
    cases h
    exact .endLoop partner
  | perform effect =>
    change perform effect value _ = _ at h
    by_cases hsilent : effect.isSilent = true
    · rcases happlied : t.applied effect value with ⟨failure | ⟨⟩, t'⟩
      · rw [perform_of_applied_error happlied] at h
        cases h
        exact .refused hsilent happlied
      · rw [perform_of_applied hsilent happlied] at h
        cases h
        exact .applied hsilent happlied
    · cases effect with
      | read =>
        cases h
        exact .reads
      | write =>
        cases h
        exact .writes
      | _ => exact absurd rfl hsilent

/-- The machine halts only at the end of its program, and stays as it is. -/
theorem finished_of_halted {m : Machine} (h : m.turn = (.halted, m')) :
    m.finished = true ∧ m' = m := by
  obtain ⟨p, t, position, steps⟩ := m
  cases turn_cases h with
  | halted hend => exact ⟨decide_eq_true (Program.get?_eq_none_iff.mp hend), rfl⟩
  | landed hget hmove hcell hact => cases act_cases hact

/-! ## Counting opcodes -/

/-- A turn leaves the program as it is. It counts one opcode if it has executed one, and otherwise
stays where it is in the program. -/
structure Counts (m : Machine) (r : Turn) (m' : Machine) : Prop where
  program : m'.program = m.program
  moved : r = .moved → m'.steps = m.steps + 1
  not_moved : r ≠ .moved → m'.position = m.position ∧ m'.steps = m.steps

theorem turn_counts {m : Machine} (h : m.turn = (r, m')) : m.Counts r m' := by
  obtain ⟨p, t, position, steps⟩ := m
  cases turn_cases h with
  | halted | refused => exact ⟨rfl, nofun, fun _ => ⟨rfl, rfl⟩⟩
  | landed hget hmove hcell hact =>
    cases act_cases hact with
    | beginLoop | endLoop | applied => exact ⟨rfl, fun _ => rfl, fun h => absurd rfl h⟩
    | reads | writes | refused => exact ⟨rfl, nofun, fun _ => ⟨rfl, rfl⟩⟩

end Machine

namespace Session

/-! ## What a dispatch can be -/

variable {σ : Type} {io : Console σ} {machine : Machine} {device : σ}
  {answer : Except (Failure Error) Unit} {s s' : Session σ}

/-- What a dispatch in the session `⟨machine, device⟩` can be. -/
inductive DispatchOf (io : Console σ) (machine : Machine) (device : σ) :
    Except (Failure Error) Unit → Session σ → Prop
  | halted {m' : Machine} (hturn : machine.turn = (.halted, m')) :
      DispatchOf io machine device (.ok ()) ⟨m', device⟩
  | moved {m' : Machine} (hturn : machine.turn = (.moved, m')) :
      DispatchOf io machine device (.ok ()) ⟨m', device⟩
  | failed {failure : Failure Error} {m' : Machine} (hturn : machine.turn = (.failed failure, m')) :
      DispatchOf io machine device (.error failure) ⟨m', device⟩
  | read {m' : Machine} {byte : Option UInt8} {device' : σ}
      (hturn : machine.turn = (.asks, m')) (hread : io.read device = (.ok byte, device')) :
      DispatchOf io machine device (.ok ()) ⟨m'.receive byte, device'⟩
  | readFailed {m' : Machine} {e : DeviceError} {device' : σ}
      (hturn : machine.turn = (.asks, m')) (hread : io.read device = (.error e, device')) :
      DispatchOf io machine device (.error (.reported (.io e))) ⟨m', device'⟩
  | wrote {m' : Machine} {byte : UInt8} {device' : σ}
      (hturn : machine.turn = (.offers byte, m'))
      (hwrite : io.write byte device = (.ok (), device')) :
      DispatchOf io machine device (.ok ()) ⟨m'.advance, device'⟩
  | writeFailed {m' : Machine} {byte : UInt8} {e : DeviceError} {device' : σ}
      (hturn : machine.turn = (.offers byte, m'))
      (hwrite : io.write byte device = (.error e, device')) :
      DispatchOf io machine device (.error (.reported (.io e))) ⟨m', device'⟩

theorem dispatch_cases (h : dispatch io ⟨machine, device⟩ = (answer, s')) :
    DispatchOf io machine device answer s' := by
  rcases hturn : machine.turn with ⟨_ | _ | _ | byte | failure, m'⟩
  · rw [dispatch, hturn] at h
    cases h
    exact .halted hturn
  · rw [dispatch_of_moved hturn] at h
    cases h
    exact .moved hturn
  · rcases hread : io.read device with ⟨e | byte, device'⟩
    · rw [dispatch_of_read_failed hturn hread] at h
      cases h
      exact .readFailed hturn hread
    · rw [dispatch_of_read hturn hread] at h
      cases h
      exact .read hturn hread
  · rcases hwrite : io.write byte device with ⟨e | ⟨⟩, device'⟩
    · rw [dispatch_of_write_failed hturn hwrite] at h
      cases h
      exact .writeFailed hturn hwrite
    · rw [dispatch_of_write hturn hwrite] at h
      cases h
      exact .wrote hturn hwrite
  · rw [dispatch_of_failed hturn] at h
    cases h
    exact .failed hturn

/-- A dispatch leaves the program as it is. -/
theorem program_of_dispatch (h : s.dispatch io = (answer, s')) :
    s'.machine.program = s.machine.program := by
  obtain ⟨machine, device⟩ := s
  cases dispatch_cases h with
  | halted hturn | moved hturn | failed hturn | readFailed hturn | writeFailed hturn =>
    exact (Machine.turn_counts hturn).program
  | read hturn =>
    rw [Machine.receive_eq]
    exact (Machine.turn_counts hturn).program
  | wrote hturn => exact (Machine.turn_counts hturn).program

/-- A dispatch that goes well counts an opcode, unless there was none left. -/
theorem steps_of_ok (h : s.dispatch io = (.ok (), s')) (hfinished : s.machine.finished = false) :
    s'.machine.steps = s.machine.steps + 1 := by
  obtain ⟨machine, device⟩ := s
  cases dispatch_cases h with
  | halted hturn =>
    rw [(Machine.finished_of_halted hturn).1] at hfinished
    cases hfinished
  | moved hturn => exact (Machine.turn_counts hturn).moved rfl
  | read hturn =>
    rw [Machine.receive_eq]
    exact congrArg (· + 1) ((Machine.turn_counts hturn).not_moved nofun).2
  | wrote hturn => exact congrArg (· + 1) ((Machine.turn_counts hturn).not_moved nofun).2

/-- A dispatch that fails stays where it is in the program. -/
theorem unchanged_of_error {failure : Failure Error} (h : s.dispatch io = (.error failure, s')) :
    s'.machine.position = s.machine.position ∧ s'.machine.steps = s.machine.steps := by
  obtain ⟨machine, device⟩ := s
  cases dispatch_cases h with
  | failed hturn | readFailed hturn | writeFailed hturn =>
    exact (Machine.turn_counts hturn).not_moved nofun

end Session

end Brainfuck
