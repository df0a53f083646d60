import Brainfuck.Proofs.Faults
import Brainfuck.Proofs.Placement
import Mathlib.Logic.Function.Iterate
import Mathlib.Order.Bounds.Basic

/-!
# Where scans end

A scan goes on by one cell as long as the cell under the cursor is not zero and there is another one
that way (`Tape.ScansIn`). Going on loses none of the zeros that lie ahead (`Tape.zeros_next`), so a
scan ends on the nearest of them, or if there is none, on a nonzero cell at the edge
(`Tape.scan_ends`). It does not look at the cell at the edge: whether that is zero makes no
difference to the scan, but it does to the plain loop, which leaves the tape if it is not
(`Tape.scanLoop_cases`).

Main result: `Tape.scan_exact`.
-/

namespace Brainfuck

/-- The loop that is nothing but a move. -/
def Direction.loopText : Direction → String
  | .left => "[<]"
  | .right => "[>]"

theorem Plain.commandsOf_loopText (d : Direction) :
    commandsOf d.loopText = [.beginLoop, .move d, .endLoop] := by
  cases d <;> decide +kernel

namespace Tape

/-- The tape with its cursor one cell further. -/
def next (d : Direction) (t : Tape) : Tape := { t with cursor := (t.cursor + d.unit).toNat }

/-- The cell under the cursor is not zero, and there is another one that way. -/
structure GoesOn (t : Tape) (d : Direction) : Prop where
  nonzero : ∃ value, value ≠ 0 ∧ t.cells[t.cursor]? = some value
  further : t.Holds (t.cursor + d.unit)

/-- The scan is `n` rounds of going on by one cell. -/
structure ScansIn (t : Tape) (d : Direction) (n : Nat) : Prop where
  goesOn : ∀ k < n, ((next d)^[k] t).GoesOn d
  ends : ¬((next d)^[n] t).GoesOn d
  scan_eq : t.scan d = (next d)^[n] t
  cursor_eq : ((t.scan d).cursor : Int) = t.cursor + d.unit * n

/-- The indices of the zero cells from the cursor on that way. -/
def zeros (t : Tape) : Direction → Set Nat
  | .left => {index | index ≤ t.cursor ∧ t.cells[index]? = some 0}
  | .right => {index | t.cursor ≤ index ∧ t.cells[index]? = some 0}

/-- The first of the indices that one comes to that way. -/
def FirstOf (d : Direction) (indices : Set Nat) (index : Nat) : Prop :=
  match d with
  | .left => IsGreatest indices index
  | .right => IsLeast indices index

variable {t : Tape} {d : Direction} {n : Nat}

/-- A zero is not under a cursor that is on a nonzero cell. -/
theorem ne_cursor_of_zero {value : UInt8} (hcell : t.cells[t.cursor]? = some value)
    (hvalue : value ≠ 0) {index : Nat} (hzero : t.cells[index]? = some 0) : index ≠ t.cursor := by
  rintro rfl
  exact hvalue (Option.some.inj (hcell.symm.trans hzero))

/-! ## Rounds -/

theorem not_goesOn_of_zero (h : t.cells[t.cursor]? = some 0) : ¬t.GoesOn d := by
  intro hgoes
  obtain ⟨value, hvalue, hcell⟩ := hgoes.nonzero
  exact ne_cursor_of_zero hcell hvalue h rfl

theorem ScansIn.of_stop (hstop : ¬t.GoesOn d) (hscan : t.scan d = t) : t.ScansIn d 0 := by
  refine ⟨fun k hk => absurd hk (Nat.not_lt_zero k), hstop, hscan, ?_⟩
  rw [hscan, Int.natCast_zero, Int.mul_zero, Int.add_zero]

theorem GoesOn.scan_eq (h : t.GoesOn d) : t.scan d = (t.next d).scan d := by
  obtain ⟨value, hvalue, hcell⟩ := h.nonzero
  exact scan_of_next hcell hvalue h.further

theorem GoesOn.cursor_next (h : t.GoesOn d) : ((t.next d).cursor : Int) = t.cursor + d.unit :=
  Int.toNat_of_nonneg h.further.1

/-- One round, and then the others. -/
theorem ScansIn.of_goesOn (hgoes : t.GoesOn d) (h : (t.next d).ScansIn d n) :
    t.ScansIn d (n + 1) := by
  refine ⟨?_, h.ends, hgoes.scan_eq.trans h.scan_eq, ?_⟩
  · intro k hk
    cases k with
    | zero => exact hgoes
    | succ k => exact h.goesOn k (Nat.lt_of_succ_lt_succ hk)
  · have hrest := h.cursor_eq
    rw [hgoes.cursor_next] at hrest
    rw [hgoes.scan_eq, hrest, Int.natCast_succ, Int.mul_add, Int.mul_one]
    omega

/-- **Every scan comes to an end**, cell by cell. -/
theorem exists_scansIn (hplaced : t.Placed t.size) (d : Direction) : ∃ n, t.ScansIn d n := by
  rcases Nat.eq_zero_or_pos t.size with hsize | hsize
  · refine ⟨0, .of_stop ?_ (scan_of_no_cells hplaced hsize d)⟩
    intro hgoes
    obtain ⟨hnonneg, hlt⟩ := hgoes.further
    omega
  · have hcursor := hplaced.cursor_lt hsize
    refine scan_induction (d := d) (motive := fun t => ∃ n, t.ScansIn d n) ?zero ?edge ?next hcursor
    case zero =>
      intro t hzero
      exact ⟨0, .of_stop (not_goesOn_of_zero hzero) (scan_of_zero hzero)⟩
    case edge =>
      intro t value hcell _ hedge
      obtain ⟨hlt, -⟩ := Array.getElem?_eq_some_iff.mp hcell
      exact ⟨0, .of_stop (fun hgoes => hedge hgoes.further) (scan_of_edge hlt hedge)⟩
    case next =>
      intro t value hcell hvalue hnext ih
      obtain ⟨n, hn⟩ := ih
      exact ⟨n + 1, .of_goesOn ⟨⟨value, hvalue, hcell⟩, hnext⟩ hn⟩

/-! ## The nearest zero -/

theorem mem_zeros_iff {index : Nat} :
    index ∈ t.zeros d ↔ 0 ≤ d.unit * (index - t.cursor) ∧ t.cells[index]? = some 0 := by
  cases d with
  | left =>
    refine and_congr_left fun _ => ?_
    simp only [Direction.unit]
    omega
  | right =>
    refine and_congr_left fun _ => ?_
    simp only [Direction.unit]
    omega

theorem firstOf_zeros_of_zero (h : t.cells[t.cursor]? = some 0) :
    FirstOf d (t.zeros d) t.cursor := by
  cases d with
  | left => exact ⟨⟨Nat.le_refl _, h⟩, fun index hindex => hindex.1⟩
  | right => exact ⟨⟨Nat.le_refl _, h⟩, fun index hindex => hindex.1⟩

/-- Where a scan goes on, no zero is left behind. -/
theorem zeros_next (h : t.GoesOn d) : (t.next d).zeros d = t.zeros d := by
  obtain ⟨value, hvalue, hcell⟩ := h.nonzero
  ext index
  rw [mem_zeros_iff, mem_zeros_iff, h.cursor_next]
  refine and_congr_left fun hzero => ?_
  have hne := ne_cursor_of_zero hcell hvalue hzero
  cases d <;> simp only [Direction.unit] <;> omega

/-- At the edge, the cell under the cursor is the only one that is left. -/
theorem zeros_of_clamped (h : t.Clamped d) : t.zeros d = ∅ := by
  obtain ⟨value, hvalue, hcell⟩ := h.nonzero
  have hcursor : t.cursor < t.size := (Array.getElem?_eq_some_iff.mp hcell).1
  refine Set.eq_empty_of_forall_notMem fun index hindex => ?_
  obtain ⟨hahead, hzero⟩ := mem_zeros_iff.mp hindex
  have hne := ne_cursor_of_zero hcell hvalue hzero
  have hlt : index < t.size := (Array.getElem?_eq_some_iff.mp hzero).1
  have hedge := h.edge
  unfold Holds at hedge
  cases d <;> simp only [Direction.unit] at hahead hedge <;> omega

/-- **A scan ends on the first zero cell**, or on a nonzero cell at the edge if there is none. -/
theorem scan_ends (hcursor : t.cursor < t.size) (d : Direction) :
    FirstOf d (t.zeros d) (t.scan d).cursor ∨ t.zeros d = ∅ ∧ (t.scan d).Clamped d := by
  refine scan_induction (d := d) (motive := fun t =>
    FirstOf d (t.zeros d) (t.scan d).cursor ∨ t.zeros d = ∅ ∧ (t.scan d).Clamped d)
    ?zero ?edge ?next hcursor
  case zero =>
    intro t hzero
    rw [scan_of_zero hzero]
    exact .inl (firstOf_zeros_of_zero hzero)
  case edge =>
    intro t value hcell hvalue hedge
    obtain ⟨hlt, -⟩ := Array.getElem?_eq_some_iff.mp hcell
    have hclamped : t.Clamped d := ⟨⟨value, hvalue, hcell⟩, hedge⟩
    rw [scan_of_edge hlt hedge]
    exact .inr ⟨zeros_of_clamped hclamped, hclamped⟩
  case next =>
    intro t value hcell hvalue hnext ih
    have hgoes : t.GoesOn d := ⟨⟨value, hvalue, hcell⟩, hnext⟩
    rw [hgoes.scan_eq, ← zeros_next hgoes]
    exact ih

theorem FirstOf.mem {indices : Set Nat} {index : Nat} (h : FirstOf d indices index) :
    index ∈ indices := by
  cases d with
  | left | right => exact h.1

/-- A scan ends on a zero if there is one ahead. -/
theorem scan_zero_iff (hcursor : t.cursor < t.size) (d : Direction) :
    (t.scan d).cells[(t.scan d).cursor]? = some 0 ↔ (t.zeros d).Nonempty := by
  rcases scan_ends hcursor d with hfirst | ⟨hnone, hclamped⟩
  · have hmem := hfirst.mem
    rw [cells_scan]
    exact ⟨fun _ => ⟨_, hmem⟩, fun _ => (mem_zeros_iff.mp hmem).2⟩
  · obtain ⟨value, hvalue, hcell⟩ := hclamped.nonzero
    constructor
    · intro hzero
      exact absurd rfl (ne_cursor_of_zero hcell hvalue hzero)
    · intro hsome
      rw [hnone] at hsome
      exact absurd hsome Set.not_nonempty_empty

theorem size_pos_of_zeros (h : (t.zeros d).Nonempty) : 0 < t.size := by
  obtain ⟨index, hindex⟩ := h
  have hlt : index < t.size := (Array.getElem?_eq_some_iff.mp (mem_zeros_iff.mp hindex).2).1
  omega

theorem firstOf_scan (hplaced : t.Placed t.size) (h : (t.zeros d).Nonempty) :
    FirstOf d (t.zeros d) (t.scan d).cursor := by
  have hcursor := hplaced.cursor_lt (size_pos_of_zeros h)
  rcases scan_ends hcursor d with hfirst | ⟨hnone, -⟩
  · exact hfirst
  · exact absurd hnone h.ne_empty

theorem cursor_scan_of_no_zeros (hplaced : t.Placed t.size) (h : t.zeros d = ∅) :
    (t.scan d).cursor = t.edge d := by
  rcases Nat.eq_zero_or_pos t.size with hsize | hsize
  · have hcursor := hplaced.cursor_le
    rw [scan_of_no_cells hplaced hsize]
    cases d with
    | left =>
      show t.cursor = 0
      omega
    | right =>
      show t.cursor = t.size - 1
      omega
  · have hcursor := hplaced.cursor_lt hsize
    rcases scan_ends hcursor d with hfirst | ⟨-, hclamped⟩
    · exact absurd h (Set.nonempty_of_mem hfirst.mem).ne_empty
    · have hedge := hclamped.cursor_eq (scan_cursor_lt hcursor)
      cases d with
      | left | right => exact hedge

/-! ## The plain loop -/

section PlainLoop

variable {σ : Type} (io : Console σ) (device : σ)

/-- The plain loop ends where the scan does if that is a zero cell, and otherwise leaves the tape
there. -/
theorem scanLoop_cases (hcursor : t.cursor < t.size) (d : Direction) :
    ((t.scan d).cells[(t.scan d).cursor]? = some 0 ∧
      ∃ n, Plain.after io (Plain.commandsOf d.loopText) n (.start t device) =
        .finished ⟨3, (t.scan d).cursor, t.scan d, device⟩) ∨
    (t.scan d).Clamped d ∧
      ∃ n s, Plain.after io (Plain.commandsOf d.loopText) n (.start t device) = .offTape s ∧
        s.tape = t.scan d ∧ s.device = device := by
  obtain ⟨value, hcell⟩ := exists_cell hcursor
  have hsegment : Plain.Segment [.beginLoop, .move d, .endLoop] 0
      [.beginLoop, .move d, .endLoop] := Plain.Segment.of_append [] _ []
  have hloop : Plain.Loop [.beginLoop, .move d, .endLoop] 0 2 :=
    @Plain.Loop.of_balanced [] [.move d] (balanced_singleton rfl) []
  rw [Plain.commandsOf_loopText]
  rcases Plain.scan_cases io device hsegment hloop hcell t.cursor with
    ⟨hzero, n, hreaches⟩ | ⟨hclamped, n, s, hafter, -, htape, hdevice⟩
  · refine .inl ⟨hzero, n + 1 + 1, ?_⟩
    have hend : Plain.step io [.beginLoop, .move d, .endLoop]
        ⟨3, (t.scan d).cursor, t.scan d, device⟩ = _ := Plain.step_finished io (Nat.le_refl 3)
    exact (hreaches.after_add 1).trans (Plain.after_succ_of_stopped hend nofun 0)
  · exact .inr ⟨hclamped, n, s, hafter, htape, hdevice⟩

/-- Without cells, the plain loop comes no further than its first command. -/
theorem scanLoop_of_no_cells (hsize : t.size = 0) (d : Direction) :
    Plain.after io (Plain.commandsOf d.loopText) 1 (.start t device) =
      .offTape (.start t device) := by
  rw [Plain.commandsOf_loopText]
  have hcell : (Plain.State.start t device).cell? = none := by
    apply Plain.cell?_of_not_holds
    rintro ⟨hnonneg, hlt⟩
    have hlt : (t.cursor : Int) < t.size := hlt
    omega
  have hstop : Plain.step io [.beginLoop, .move d, .endLoop] (.start t device) = _ :=
    Plain.step_of_offTape io rfl rfl hcell
  exact Plain.after_succ_of_stopped hstop (.offTape _) 0

theorem scanLoop_finished (hplaced : t.Placed t.size) (h : (t.zeros d).Nonempty) :
    ∃ n, Plain.after io (Plain.commandsOf d.loopText) n (.start t device) =
      .finished ⟨3, (t.scan d).cursor, t.scan d, device⟩ := by
  have hcursor := hplaced.cursor_lt (size_pos_of_zeros h)
  rcases scanLoop_cases io device hcursor d with ⟨-, hfinished⟩ | ⟨hclamped, -⟩
  · exact hfinished
  · obtain ⟨value, hvalue, hcell⟩ := hclamped.nonzero
    exact absurd rfl (ne_cursor_of_zero hcell hvalue ((scan_zero_iff hcursor d).mpr h))

theorem scanLoop_offTape (hplaced : t.Placed t.size) (h : t.zeros d = ∅) :
    ∃ n s, Plain.after io (Plain.commandsOf d.loopText) n (.start t device) = .offTape s ∧
      ¬t.Holds s.cursor ∧ s.tape = t.scan d ∧ s.device = device := by
  have hleaves : ∃ n s, Plain.after io (Plain.commandsOf d.loopText) n (.start t device) =
      .offTape s ∧ s.tape = t.scan d ∧ s.device = device := by
    rcases Nat.eq_zero_or_pos t.size with hsize | hsize
    · exact ⟨1, _, scanLoop_of_no_cells io device hsize d, (scan_of_no_cells hplaced hsize d).symm,
        rfl⟩
    · have hcursor := hplaced.cursor_lt hsize
      rcases scanLoop_cases io device hcursor d with ⟨hzero, -⟩ | ⟨-, hoff⟩
      · exact absurd h ((scan_zero_iff hcursor d).mp hzero).ne_empty
      · exact hoff
  obtain ⟨n, s, hafter, htape, hdevice⟩ := hleaves
  refine ⟨n, s, hafter, ?_, htape, hdevice⟩
  intro hholds
  have hholds : s.tape.Holds s.cursor := by
    rw [htape]
    exact (holds_congr (congrArg Array.size (cells_scan t d))).mpr hholds
  obtain ⟨value, -, hcell⟩ := Plain.exists_cell hholds
  rw [Plain.cell?_of_offTape hafter] at hcell
  cases hcell

end PlainLoop

/-- **A scan ends on the nearest zero cell** that way, or on the last cell that way if there is none.
It comes to an end in as many rounds as there are cells on the way, and leaves all cells as they are;
on a tape without cells it does nothing. The plain loop comes to the same state if there is a zero,
and leaves the tape otherwise. -/
theorem scan_exact {σ : Type} (io : Console σ) (device : σ) {t : Tape}
    (hplaced : t.Placed t.size) :
    (∀ d, (t.scan d).cells = t.cells ∧ ∃ n, t.ScansIn d n) ∧
    (t.size = 0 → ∀ d, t.scan d = t) ∧
    ((t.zeros .right).Nonempty → IsLeast (t.zeros .right) (t.scan .right).cursor) ∧
    (t.zeros .right = ∅ → (t.scan .right).cursor = t.size - 1) ∧
    ((t.zeros .left).Nonempty → IsGreatest (t.zeros .left) (t.scan .left).cursor) ∧
    (t.zeros .left = ∅ → (t.scan .left).cursor = 0) ∧
    ∀ d,
      ((t.zeros d).Nonempty →
        ∃ n, Plain.after io (Plain.commandsOf d.loopText) n (.start t device) =
          .finished ⟨3, (t.scan d).cursor, t.scan d, device⟩) ∧
      (t.zeros d = ∅ →
        ∃ n s, Plain.after io (Plain.commandsOf d.loopText) n (.start t device) = .offTape s ∧
          ¬t.Holds s.cursor ∧ s.tape = t.scan d ∧ s.device = device) :=
  ⟨fun d => ⟨cells_scan t d, exists_scansIn hplaced d⟩, scan_of_no_cells hplaced,
    firstOf_scan (d := .right) hplaced, cursor_scan_of_no_zeros (d := .right) hplaced,
    firstOf_scan (d := .left) hplaced, cursor_scan_of_no_zeros (d := .left) hplaced,
    fun _ => ⟨scanLoop_finished io device hplaced, scanLoop_offTape io device hplaced⟩⟩

/-- A scan to the left that finds a zero, and one to the right from the same cell, which is the last
and not zero. -/
theorem scan_exact_both_ways :
    (Tape.mk #[3, 0, 5, 7] 3).Placed 4 ∧
      IsGreatest ((Tape.mk #[3, 0, 5, 7] 3).zeros .left) 1 ∧
      (∃ n, Plain.after Console.fed (Plain.commandsOf "[<]") n
        (.start ⟨#[3, 0, 5, 7], 3⟩ (.start (.bytes []))) =
          .finished ⟨3, 1, ⟨#[3, 0, 5, 7], 1⟩, .start (.bytes [])⟩) ∧
      ((Tape.mk #[3, 0, 5, 7] 3).scan .right).cursor = 3 ∧
      ∃ n s, Plain.after Console.fed (Plain.commandsOf "[>]") n
        (.start ⟨#[3, 0, 5, 7], 3⟩ (.start (.bytes []))) = .offTape s ∧ s.tape.cursor = 3 := by
  have hplaced : (Tape.mk #[3, 0, 5, 7] 3).Placed 4 := ⟨rfl, Nat.le_refl 3⟩
  have hleft : ((Tape.mk #[3, 0, 5, 7] 3).zeros .left).Nonempty := ⟨1, by decide, rfl⟩
  have hright : (Tape.mk #[3, 0, 5, 7] 3).zeros .right = ∅ :=
    zeros_of_clamped ⟨⟨7, by decide, rfl⟩, fun hholds => absurd hholds.2 (by decide)⟩
  obtain ⟨-, -, -, hlast, hgreatest, -, hloop⟩ :=
    scan_exact Console.fed (.start (.bytes [])) hplaced
  obtain ⟨n, s, hafter, -, htape, -⟩ := (hloop .right).2 hright
  refine ⟨hplaced, hgreatest hleft, (hloop .left).1 hleft, hlast hright, n, s, hafter, ?_⟩
  rw [htape]
  exact hlast hright

end Tape

end Brainfuck
