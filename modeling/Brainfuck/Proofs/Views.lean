import Brainfuck.Proofs.Placement

/-!
# Views of a machine

A view shows a tape as another tape. Seen through it, a machine that runs `p` looks like one that
runs some program `q`. Where the opcodes of the two programs do the same to the tape as it is seen,
the two machines take the same turn (`Machine.turn_seen`). Then they ask the console for the same
and are given the same, so that their dispatches are the same as well (`Session.dispatch_seen`).
-/

namespace Brainfuck

variable {view : Tape → Tape} {p q : Program}

/-- The cell under the cursor is seen, and can be changed. -/
structure Tape.Faithful (view : Tape → Tape) : Prop where
  cell : ∀ t : Tape, t.cursor < t.size → (view t).cells[(view t).cursor]? = t.cells[t.cursor]?
  store : ∀ (t : Tape) (value : UInt8), t.cursor < t.size →
    (view t).store value = view (t.store value)

namespace Tape.Faithful

variable {t : Tape} (hview : Tape.Faithful view) (h : t.cursor < t.size)

include hview h

theorem receive (byte : Option UInt8) : (view t).receive byte = view (t.receive byte) := by
  unfold Tape.receive
  split
  · rfl
  · split
    · rfl
    · exact hview.store t _ h

theorem store_ok (value : UInt8) :
    ((.ok (), (view t).store value) : Except (Failure OffTape) Unit × Tape) =
      (.ok (), view (t.store value)) :=
  congrArg _ (hview.store t value h)

/-- A copy is seen where its spreading is, since only the copied cell is left to be cleared. -/
theorem applied_copy {targets targets' : List Target} {value : UInt8} {t' : Tape}
    (hspread : ∀ t₁, spread value targets t = (.ok (), t₁) →
      spread value targets' (view t) = (.ok (), view t₁))
    (happlied : t.applied (.copy targets) value = (.ok (), t')) :
    (view t).applied (.copy targets') value = (.ok (), view t') := by
  unfold applied at happlied ⊢
  dsimp only at happlied ⊢
  split at happlied
  next hvalue =>
    rw [if_pos hvalue]
    cases happlied
    rfl
  next hvalue =>
    rw [if_neg hvalue]
    split at happlied
    next t₁ heq =>
      cases happlied
      rw [hspread t₁ heq]
      obtain ⟨hsize₁, hcursor₁⟩ := spread_same value targets t
      rw [heq] at hsize₁ hcursor₁
      exact hview.store_ok (by rw [hsize₁, hcursor₁]; exact h) 0
    next => cases happlied

end Tape.Faithful

/-- At the cursor of `t`, where the cell has the given value, the second action does to the tape
that is seen what the first does to the tape. -/
inductive Action.Alike (view : Tape → Tape) (t : Tape) (value : UInt8) : Action → Action → Prop
  | beginLoop (partner : Nat) : Alike view t value (.beginLoop partner) (.beginLoop partner)
  | endLoop (partner : Nat) : Alike view t value (.endLoop partner) (.endLoop partner)
  | read : Alike view t value (.perform .read) (.perform .read)
  | write : Alike view t value (.perform .write) (.perform .write)
  | applied {effect effect' : Effect} {t' : Tape} (hsilent : effect.isSilent = true)
      (hsilent' : effect'.isSilent = true) (h : t.applied effect value = (.ok (), t'))
      (h' : (view t).applied effect' value = (.ok (), view t')) :
      Alike view t value (.perform effect) (.perform effect')

namespace Machine

/-- The machine that runs `q` on the tape that is seen. -/
def seen (q : Program) (view : Tape → Tape) : Machine → Machine
  | ⟨_, tape, position, steps⟩ => ⟨q, view tape, position, steps⟩

/-- What is seen of a turn. -/
def turnSeen (q : Program) (view : Tape → Tape) : Turn × Machine → Turn × Machine
  | (r, m) => (r, m.seen q view)

variable {t t' : Tape} {position steps : Nat}

theorem act_seen {action action' : Action} {value : UInt8}
    (h : Action.Alike view t value action action') :
    act action' value ⟨q, view t, position, steps⟩ =
      turnSeen q view (act action value ⟨p, t, position, steps⟩) := by
  cases h with
  | beginLoop partner =>
    rw [act_beginLoop, act_beginLoop]
    rfl
  | endLoop partner =>
    rw [act_endLoop, act_endLoop]
    rfl
  | read | write => rfl
  | applied hsilent hsilent' happlied happlied' =>
    rw [act, act, perform_of_applied hsilent happlied, perform_of_applied hsilent' happlied']
    rfl

/-- **The same turn is taken** where the cursor lands on the same cell and acts alike there. -/
theorem turn_seen (hview : Tape.Faithful view) {move move' : Int} {action action' : Action}
    {value : UInt8} (hget : p.get? position = some ⟨move, action⟩)
    (hget' : q.get? position = some ⟨move', action'⟩) (hmove : t.moveBy move = .ok t')
    (hmove' : (view t).moveBy move' = .ok (view t')) (hcell : t'.cells[t'.cursor]? = some value)
    (h : Action.Alike view t' value action action') :
    turn ⟨q, view t, position, steps⟩ = turnSeen q view (turn ⟨p, t, position, steps⟩) := by
  have hcell' : (view t').cells[(view t').cursor]? = some value := by
    rw [hview.cell t' (Tape.moveBy_eq_ok hmove).2.1, hcell]
  rw [turn_of_moveBy hget hmove hcell, turn_of_moveBy hget' hmove' hcell', act_seen h]

/-- At the end of its program, a machine halts however it is seen. -/
theorem turn_seen_of_none (hget : p.get? position = none) (hget' : q.get? position = none) :
    turn ⟨q, view t, position, steps⟩ = turnSeen q view (turn ⟨p, t, position, steps⟩) := by
  rw [turn, turn, hget, hget']
  rfl

/-- A machine that asks or offers has its cursor on a cell. -/
theorem cursor_lt_of_asks {m m' : Machine} (h : m.turn = (.asks, m')) :
    m'.tape.cursor < m'.tape.size := by
  obtain ⟨p, t, position, steps⟩ := m
  cases turn_cases h with
  | landed hget hmove hcell hact =>
    cases act_cases hact with
    | reads => exact (Tape.moveBy_eq_ok hmove).2.1

end Machine

namespace Session

variable {σ : Type} {io : Console σ} {s s' : Session σ}

/-- The session with the machine as it is seen. -/
def seen (q : Program) (view : Tape → Tape) : Session σ → Session σ
  | ⟨machine, device⟩ => ⟨machine.seen q view, device⟩

/-- **Where the same turn is taken, the dispatch is the same**, since the console is asked the
same. -/
theorem dispatch_seen (hview : Tape.Faithful view) {answer : Except (Failure Error) Unit}
    (hseen : (s.machine.seen q view).turn = Machine.turnSeen q view s.machine.turn)
    (hdispatch : s.dispatch io = (answer, s')) :
    (s.seen q view).dispatch io = (answer, s'.seen q view) := by
  obtain ⟨machine, device⟩ := s
  change (machine.seen q view).turn = Machine.turnSeen q view machine.turn at hseen
  show dispatch io ⟨machine.seen q view, device⟩ = _
  cases dispatch_cases hdispatch with
  | halted hturn | moved hturn | failed hturn =>
    rw [hturn] at hseen
    rw [dispatch, hseen]
    rfl
  | @read m' byte device' hturn hread =>
    rw [hturn] at hseen
    rw [dispatch_of_read hseen hread]
    obtain ⟨p, t, position, steps⟩ := m'
    show (_, Session.mk (Machine.receive byte ⟨q, view t, position, steps⟩) device') = _
    rw [Machine.receive_eq, Machine.receive_eq, hview.receive (Machine.cursor_lt_of_asks hturn)]
    rfl
  | readFailed hturn hread =>
    rw [hturn] at hseen
    rw [dispatch_of_read_failed hseen hread]
    rfl
  | @wrote m' _ _ hturn hwrite =>
    rw [hturn] at hseen
    rw [dispatch_of_write hseen hwrite]
    rfl
  | writeFailed hturn hwrite =>
    rw [hturn] at hseen
    rw [dispatch_of_write_failed hseen hwrite]
    rfl

end Session

end Brainfuck
