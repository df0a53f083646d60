import Brainfuck.Proofs.Turns
import Brainfuck.Tape.Operation

/-!
# The cursor stays on the tape

A tape keeps its cells, and its cursor stays on one of them if there is one (`Tape.Placed`),
whatever is done to it: by any sequence of operations (`Tape.after_placed`) and by any effect of an
opcode (`Tape.applied_placed`), also where one is refused on the way. No dispatch changes the number
of cells (`Session.size_of_dispatch`), and but for a scan, the cursor stays where the move of the
opcode has led it (`Machine.cursor_of_turn`).
-/

namespace Brainfuck

namespace Tape

/-- The tape has `size` cells, and its cursor is on one of them. The cursor of a tape without cells
is where the first would be. -/
structure Placed (t : Tape) (size : Nat) : Prop where
  size_eq : t.size = size
  cursor_le : t.cursor ≤ size - 1

variable {t t' : Tape} {size : Nat}

theorem Placed.cursor_lt (h : t.Placed size) (hpos : 0 < size) : t.cursor < size := by
  have := h.cursor_le
  omega

theorem Placed.cursor_le_size (h : t.Placed size) : t.cursor ≤ t.size := by
  have := h.cursor_le
  rw [h.size_eq]
  omega

/-- What matters is where the cursor is, and how many cells there are. -/
theorem Placed.congr (h : t.Placed size) (hsize : t'.size = t.size)
    (hcursor : t'.cursor = t.cursor) : t'.Placed size :=
  ⟨hsize.trans h.size_eq, hcursor ▸ h.cursor_le⟩

theorem Placed.of_lt (hsize : t.size = size) (hcursor : t.cursor < t.size) : t.Placed size :=
  ⟨hsize, by omega⟩

theorem blank_placed (size : Nat) : (blank size).Placed size :=
  ⟨Array.size_replicate, Nat.zero_le _⟩

/-! ## What opcodes do -/

theorem Placed.store (h : t.Placed size) (value : UInt8) : (t.store value).Placed size :=
  h.congr (size_store value t) (cursor_store value t)

theorem Placed.moveBy {offset : Int} (h : t.Placed size) (hmove : t.moveBy offset = .ok t') :
    t'.Placed size := by
  obtain ⟨-, hlt, hcells⟩ := moveBy_eq_ok hmove
  refine .of_lt ?_ hlt
  rw [← h.size_eq, Tape.size, hcells]
  rfl

theorem rightStop_le {cells : Array UInt8} {index : Nat} (h : index ≤ cells.size - 1) :
    rightStop cells index ≤ cells.size - 1 := by
  by_cases hlt : index < cells.size
  · have := rightStop_lt_size hlt
    omega
  · rw [rightStop, if_neg (by omega)]
    exact h

theorem Placed.scan (h : t.Placed size) (d : Direction) : (t.scan d).Placed size := by
  obtain ⟨cells, cursor⟩ := t
  obtain ⟨rfl, hcursor⟩ := h
  cases d with
  | left => exact ⟨rfl, Nat.le_trans (leftStop_le cells cursor) hcursor⟩
  | right => exact ⟨rfl, rightStop_le hcursor⟩

/-- Without cells there is nothing to look at. -/
theorem scan_of_no_cells (hplaced : t.Placed t.size) (hsize : t.size = 0) (d : Direction) :
    t.scan d = t := by
  obtain ⟨cells, cursor⟩ := t
  have hcells : cells = #[] := Array.size_eq_zero_iff.mp hsize
  have hcursor : cursor = 0 := by
    have hle : cursor ≤ cells.size - 1 := hplaced.cursor_le
    rw [hcells] at hle
    exact Nat.le_zero.mp hle
  subst hcells hcursor
  cases d with
  | left => rfl
  | right =>
    show Tape.mk #[] (rightStop #[] 0) = _
    have hlast : ¬0 + 1 < (#[] : Array UInt8).size := Nat.not_lt_zero _
    rw [rightStop, if_neg hlast]

/-- Spreading changes what is in the cells, and nothing else. -/
theorem spread_same (value : UInt8) (targets : List Target) (t : Tape) :
    (spread value targets t).2.size = t.size ∧ (spread value targets t).2.cursor = t.cursor := by
  induction targets generalizing t with
  | nil => exact ⟨rfl, rfl⟩
  | cons target targets ih =>
    obtain ⟨offset, factor⟩ := target
    rw [spread]
    cases t.position? offset with
    | error failure => exact ⟨rfl, rfl⟩
    | ok index =>
      obtain ⟨hsize, hcursor⟩ :=
        ih { t with cells := t.cells.modify index (· + value * UInt8.ofNat factor) }
      exact ⟨hsize.trans Array.size_modify, hcursor⟩

/-- Nor does a copy change anything else, whether it comes to its end or is refused. -/
theorem applied_copy_same (targets : List Target) (value : UInt8) (t : Tape) :
    (t.applied (.copy targets) value).2.size = t.size ∧
      (t.applied (.copy targets) value).2.cursor = t.cursor := by
  obtain ⟨hsize, hcursor⟩ := spread_same value targets t
  unfold applied
  dsimp only
  split
  next => exact ⟨rfl, rfl⟩
  next =>
    split
    next t₁ heq =>
      rw [heq] at hsize hcursor
      exact ⟨(size_store 0 t₁).trans hsize, hcursor⟩
    next failure t₁ heq =>
      rw [heq] at hsize hcursor
      exact ⟨hsize, hcursor⟩

/-- **No effect moves the cursor off the tape**, whether it comes to its end or is refused. -/
theorem applied_placed (h : t.Placed size) (effect : Effect) (value : UInt8) :
    (t.applied effect value).2.Placed size := by
  cases effect with
  | add | sub | clear => exact h.store _
  | scan d => exact h.scan d
  | read | write => exact h
  | copy targets =>
    obtain ⟨hsize, hcursor⟩ := applied_copy_same targets value t
    exact h.congr hsize hcursor

theorem size_applied (h : t.cursor < t.size) (effect : Effect) (value : UInt8) :
    (t.applied effect value).2.size = t.size :=
  (applied_placed (.of_lt rfl h) effect value).size_eq

/-- No effect but a scan moves the cursor. -/
theorem cursor_applied {effect : Effect} (hscan : ∀ d, effect ≠ .scan d) (value : UInt8) :
    (t.applied effect value).2.cursor = t.cursor := by
  cases effect with
  | scan d => exact absurd rfl (hscan d)
  | add | sub | clear => exact cursor_store _ t
  | read | write => rfl
  | copy targets => exact (applied_copy_same targets value t).2

/-- Where all targets are at positions that fit into words, none of them makes spreading crash. -/
theorem not_crashed_of_spread {value : UInt8} {targets : List Target} {failure : Failure OffTape}
    (hword : ∀ target ∈ targets, t.InWord target.offset)
    (h : spread value targets t = (.error failure, t')) : ∃ e, failure = .reported e := by
  by_cases hholds : ∀ target ∈ targets, t.Holds (t.cursor + target.offset)
  · rw [spread_of_holds hword hholds] at h
    cases h
  · obtain ⟨front, missing, behind, -, -, -, hspread⟩ := spread_of_not_holds value hword (by
      obtain ⟨target, htarget⟩ := Classical.not_forall.mp hholds
      exact ⟨target, Classical.not_imp.mp htarget⟩)
    rw [hspread] at h
    cases h
    exact ⟨_, rfl⟩

/-! ## What operations do -/

theorem Placed.changed (h : t.Placed size) {result : Except (Failure OffTape) Tape}
    (hresult : ∀ t', result = .ok t' → t'.Placed size) : (changed t result).2.Placed size := by
  cases result with
  | ok t' => exact hresult t' rfl
  | error failure => exact h

theorem Placed.found (h : t.Placed size) (result : Except (Failure OffTape) UInt8) :
    (found t result).2.Placed size := by
  cases result <;> exact h

theorem Placed.modify {f : UInt8 → UInt8} (h : t.Placed size)
    (hmodify : ((t.modify f).mapError .crashed : Except (Failure OffTape) Tape) = .ok t') :
    t'.Placed size := by
  unfold Tape.modify at hmodify
  split at hmodify
  next value hvalue =>
    cases hmodify
    exact h.store (f value)
  next => cases hmodify

theorem Placed.modifyAt {f : UInt8 → UInt8} {offset : Int} (h : t.Placed size)
    (hmodify : t.modifyAt offset f = .ok t') : t'.Placed size := by
  unfold Tape.modifyAt at hmodify
  split at hmodify
  next index hindex =>
    cases hmodify
    exact h.congr Array.size_modify rfl
  next => cases hmodify

theorem Placed.perform (h : t.Placed size) (operation : Operation) :
    (t.perform operation).2.Placed size := by
  cases operation with
  | moveBy offset => exact h.changed fun _ hmove => h.moveBy hmove
  | get | cellAt => exact h.found _
  | set | add | sub => exact h.changed fun _ hmodify => h.modify hmodify
  | scan d => exact h.scan d
  | putAt offset value => exact h.changed fun _ hmodify => h.modifyAt hmodify

/-- **No sequence of operations moves the cursor off the tape.** -/
theorem after_placed (h : t.Placed size) (operations : List Operation) :
    (t.after operations).Placed size := by
  induction operations generalizing t with
  | nil => exact h
  | cons operation operations ih => exact ih (h.perform operation)

end Tape

/-! ## What turns and dispatches do -/

/-- A turn leaves the number of cells as it is. -/
theorem Machine.size_of_turn {m m' : Machine} {r : Turn} (h : m.turn = (r, m')) :
    m'.tape.size = m.tape.size := by
  obtain ⟨p, t, position, steps⟩ := m
  cases turn_cases h with
  | halted | refused => rfl
  | @landed _ _ t₁ value _ _ hget hmove hcell hact =>
    obtain ⟨-, hlt, hcells⟩ := Tape.moveBy_eq_ok hmove
    have hsize : t₁.size = t.size := congrArg Array.size hcells
    cases act_cases hact with
    | beginLoop | endLoop | reads | writes => exact hsize
    | @applied effect _ _ happlied | @refused effect _ _ _ happlied =>
      have hafter := Tape.size_applied hlt effect value
      rw [happlied] at hafter
      exact hafter.trans hsize

/-- Unless the opcode is a scan, a turn leaves the cursor where the move has led it. -/
theorem Machine.cursor_of_turn {p : Program} {t t' : Tape} {position steps : Nat} {o : Opcode}
    {r : Turn} {m' : Machine} (hget : p.get? position = some o) (hmove : t.moveBy o.move = .ok t')
    (hscan : ∀ d, o.action ≠ .perform (.scan d)) (h : turn ⟨p, t, position, steps⟩ = (r, m')) :
    m'.tape.cursor = t'.cursor := by
  obtain ⟨move, action⟩ := o
  obtain ⟨value, hcell⟩ := Tape.exists_cell (Tape.moveBy_eq_ok hmove).2.1
  rw [turn_of_moveBy hget hmove hcell] at h
  cases act_cases h with
  | beginLoop | endLoop | reads | writes => rfl
  | @applied effect _ _ happlied | @refused effect _ _ _ happlied =>
    have hnone : ∀ d, effect ≠ .scan d := fun d heffect => hscan d (congrArg _ heffect)
    have hkept := Tape.cursor_applied (t := t') hnone value
    rw [happlied] at hkept
    exact hkept

/-- A dispatch leaves the number of cells as it is. -/
theorem Session.size_of_dispatch {σ : Type} {io : Console σ} {s s' : Session σ}
    {answer : Except (Failure Error) Unit} (h : s.dispatch io = (answer, s')) :
    s'.machine.tape.size = s.machine.tape.size := by
  obtain ⟨machine, device⟩ := s
  cases dispatch_cases h with
  | halted hturn | moved hturn | failed hturn | readFailed hturn | writeFailed hturn
  | wrote hturn =>
    have hsize := Machine.size_of_turn hturn
    exact hsize
  | read hturn =>
    rw [Machine.receive_eq]
    exact (Tape.size_receive ..).trans (Machine.size_of_turn hturn)

end Brainfuck
