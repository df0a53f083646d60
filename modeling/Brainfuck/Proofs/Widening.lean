import Brainfuck.Proofs.Placement
import Brainfuck.Proofs.Preservation
import Brainfuck.Proofs.Slices
import Brainfuck.Proofs.Views

/-!
# Widening the tape

A tape can be widened by cells on either side. What is in them is neither read nor changed by a
program that gets along with the tape as it was: a move that leads to a cell leads to the same cell,
and a copy that reaches its targets reaches the same ones. Only a scan can tell where the tape ends,
and it does so where it ends on a cell that is not zero (`Session.MissesZero`).

Main result: `Session.after_widened`.
-/

namespace Brainfuck

namespace Tape

variable {left right : Array UInt8} {t t' : Tape}

/-- The tape with further cells on its left and on its right, and the cursor on the same cell. -/
def widened (left right : Array UInt8) : Tape → Tape
  | ⟨cells, cursor⟩ => ⟨left ++ cells ++ right, left.size + cursor⟩

theorem cursor_widened (left right : Array UInt8) (t : Tape) :
    (t.widened left right).cursor = left.size + t.cursor := rfl

theorem size_widened (left right : Array UInt8) (t : Tape) :
    (t.widened left right).size = left.size + t.size + right.size := by
  show (left ++ t.cells ++ right).size = _
  rw [Array.size_append, Array.size_append]
  rfl

/-- The cells of the tape follow those on its left. -/
theorem getElem?_widened {index : Nat} (h : index < t.size) :
    (t.widened left right).cells[left.size + index]? = t.cells[index]? := by
  show (left ++ t.cells ++ right)[left.size + index]? = _
  rw [Array.getElem?_append_left (by rw [Array.size_append]; exact Nat.add_lt_add_left h _),
    Array.getElem?_append_right (Nat.le_add_right ..), Nat.add_sub_cancel_left]

/-! ## What opcodes do on it -/

theorem setIfInBounds_widened (left right : Array UInt8) {cells : Array UInt8} {index : Nat}
    (h : index < cells.size) (value : UInt8) :
    (left ++ cells ++ right).setIfInBounds (left.size + index) value =
      left ++ cells.setIfInBounds index value ++ right := by
  rw [Array.setIfInBounds_append,
    if_pos (by rw [Array.size_append]; exact Nat.add_lt_add_left h _),
    Array.setIfInBounds_append, if_neg (Nat.not_lt.mpr (Nat.le_add_right ..)),
    Nat.add_sub_cancel_left]

theorem widened_faithful (left right : Array UInt8) : Faithful (widened left right) where
  cell := fun _ h => getElem?_widened h
  store := fun _ value h => congrArg (Tape.mk · _) (setIfInBounds_widened left right h value)

/-- Where there is a cell, there is one on the widened tape. -/
theorem position?_widened {offset : Int} {index : Nat}
    (hsize : ((left.size + t.size + right.size : Nat) : Int) ≤ greatestPosition)
    (h : t.position? offset = .ok index) :
    (t.widened left right).position? offset = .ok (left.size + index) := by
  obtain ⟨hindex, hlt⟩ := position?_eq_ok h
  have hcursor := cursor_widened left right t
  have hcells := size_widened left right t
  refine (position?_eq_ok_iff ?_ ?_).mpr ⟨?_, ?_⟩
  · unfold leastPosition
    omega
  · omega
  · omega
  · omega

theorem moveBy_widened {offset : Int}
    (hsize : ((left.size + t.size + right.size : Nat) : Int) ≤ greatestPosition)
    (h : t.moveBy offset = .ok t') :
    (t.widened left right).moveBy offset = .ok (t'.widened left right) := by
  unfold moveBy at h ⊢
  split at h
  next index hindex =>
    cases h
    rw [position?_widened hsize hindex]
    rfl
  next => cases h

/-- A scan that ends on a zero cell ends on the same cell. -/
theorem scan_widened {d : Direction} (hcursor : t.cursor < t.size)
    (h : (t.scan d).cells[(t.scan d).cursor]? = some 0) :
    (t.widened left right).scan d = (t.scan d).widened left right := by
  have hcell {t : Tape} {value : UInt8} (h : t.cells[t.cursor]? = some value) :
      (t.widened left right).cells[(t.widened left right).cursor]? = some value :=
    (getElem?_widened (Array.getElem?_eq_some_iff.mp h).1).trans h
  refine scan_induction (d := d) (motive := fun t =>
    (t.scan d).cells[(t.scan d).cursor]? = some 0 →
      (t.widened left right).scan d = (t.scan d).widened left right) ?zero ?edge ?next hcursor h
  case zero =>
    intro t hzero _
    rw [scan_of_zero hzero, scan_of_zero (hcell hzero)]
  case edge =>
    -- the scan ends where it starts, on a cell that is not zero
    intro t value hvalue hne hedge h
    rw [scan_of_edge (Array.getElem?_eq_some_iff.mp hvalue).1 hedge, hvalue] at h
    exact absurd (Option.some.inj h) hne
  case next =>
    intro t value hvalue hne hnext ih h
    have hscan := scan_of_next hvalue hne hnext
    obtain ⟨hnonneg, hlt⟩ := hnext
    have hnext' : (t.widened left right).Holds ((t.widened left right).cursor + d.unit) := by
      unfold Holds
      rw [size_widened, cursor_widened]
      omega
    have hmoved : ({ t.widened left right with
        cursor := ((t.widened left right).cursor + d.unit).toNat } : Tape) =
          widened left right { t with cursor := (t.cursor + d.unit).toNat } := by
      refine congrArg (Tape.mk _) ?_
      rw [cursor_widened]
      omega
    rw [hscan] at h ⊢
    rw [scan_of_next (hcell hvalue) hne hnext', hmoved]
    exact ih h

/-- A copy that reaches all its targets reaches the same ones. -/
theorem spread_widened {value : UInt8} {targets : List Target}
    (hsize : ((left.size + t.size + right.size : Nat) : Int) ≤ greatestPosition)
    (h : spread value targets t = (.ok (), t')) :
    spread value targets (t.widened left right) = (.ok (), t'.widened left right) := by
  induction targets generalizing t with
  | nil =>
    cases h
    rfl
  | cons target targets ih =>
    obtain ⟨offset, factor⟩ := target
    rw [spread] at h ⊢
    rcases hindex : t.position? offset with failure | index
    · rw [hindex] at h
      cases h
    · rw [hindex] at h
      rw [position?_widened hsize hindex]
      dsimp only at h ⊢
      obtain ⟨-, hlt⟩ := position?_eq_ok hindex
      obtain ⟨cell, hcell⟩ := exists_cell (t := ⟨t.cells, index⟩) hlt
      rw [modify_eq_setIfInBounds hcell] at h
      rw [modify_eq_setIfInBounds ((getElem?_widened hlt).trans hcell)]
      have hchanged := setIfInBounds_widened left right hlt
        (cell + value * UInt8.ofNat factor)
      have hrest := ih (t := ⟨t.cells.setIfInBounds index _, t.cursor⟩)
        (by rw [Tape.size, Array.size_setIfInBounds]; exact hsize) h
      rw [← hrest]
      exact congrArg (fun cells => spread value targets ⟨cells, _⟩) hchanged

/-- An effect that is not refused has the same effect, unless it is a scan that ends on a cell that
is not zero. -/
theorem applied_widened {effect : Effect} {value : UInt8} (hcursor : t.cursor < t.size)
    (hsize : ((left.size + t.size + right.size : Nat) : Int) ≤ greatestPosition)
    (hscan : ∀ d, effect = .scan d → (t.scan d).cells[(t.scan d).cursor]? = some 0)
    (h : t.applied effect value = (.ok (), t')) :
    (t.widened left right).applied effect value = (.ok (), t'.widened left right) := by
  have hview := widened_faithful left right
  cases effect with
  | add | sub | clear =>
    cases h
    exact hview.store_ok hcursor _
  | read | write =>
    cases h
    rfl
  | scan d =>
    cases h
    exact congrArg (Prod.mk _) (scan_widened hcursor (hscan d rfl))
  | copy targets => exact hview.applied_copy hcursor (fun t₁ => spread_widened hsize) h

end Tape

/-- A turn that does not fail is the same on the widened tape, unless it is that of a scan that ends
on a cell that is not zero. -/
theorem Machine.turn_widened {left right : Array UInt8} {p : Program} {t : Tape}
    {position steps : Nat} {r : Turn} {m' : Machine}
    (hsize : ((left.size + t.size + right.size : Nat) : Int) ≤ greatestPosition)
    (hturn : turn ⟨p, t, position, steps⟩ = (r, m')) (hok : ∀ failure, r ≠ .failed failure)
    (hscan : ∀ move d t', p.get? position = some ⟨move, .perform (.scan d)⟩ →
      t.moveBy move = .ok t' → (t'.scan d).cells[(t'.scan d).cursor]? = some 0) :
    turn ⟨p, t.widened left right, position, steps⟩ =
      turnSeen p (Tape.widened left right) (turn ⟨p, t, position, steps⟩) := by
  cases turn_cases hturn with
  | halted hend => exact turn_seen_of_none hend hend
  | refused => exact absurd rfl (hok _)
  | @landed move action t' value _ _ hget hmove hcell hact =>
    obtain ⟨-, hlt, hcells⟩ := Tape.moveBy_eq_ok hmove
    have hsize' : ((left.size + t'.size + right.size : Nat) : Int) ≤ greatestPosition := by
      rw [Tape.size, hcells]
      exact hsize
    refine turn_seen (Tape.widened_faithful left right) hget hget hmove
      (Tape.moveBy_widened hsize hmove) hcell ?_
    cases act_cases hact with
    | beginLoop partner => exact .beginLoop partner
    | endLoop partner => exact .endLoop partner
    | reads => exact .read
    | writes => exact .write
    | refused => exact absurd rfl (hok _)
    | applied hsilent happlied =>
      refine .applied hsilent hsilent happlied (Tape.applied_widened hlt hsize' ?_ happlied)
      rintro d rfl
      exact hscan move d t' hget hmove

namespace Session

variable {σ : Type} {io : Console σ} {s s' : Session σ} {left right : Array UInt8}

/-- The session on a tape with further cells on either side. -/
def widened (left right : Array UInt8) : Session σ → Session σ
  | ⟨⟨program, tape, position, steps⟩, device⟩ =>
    ⟨⟨program, tape.widened left right, position, steps⟩, device⟩

/-- The next dispatch is that of a scan, and it ends on a cell that is not zero. -/
def MissesZero (io : Console σ) (s : Session σ) : Prop :=
  ∃ move d s' value,
    s.machine.program.get? s.machine.position = some ⟨move, .perform (.scan d)⟩ ∧
      s.dispatch io = (.ok (), s') ∧ s'.machine.tape.cell? = some value ∧ value ≠ 0

/-- A scan that misses no zero ends on one. -/
theorem zero_of_not_missesZero {p : Program} {t t' : Tape} {position steps : Nat} {device : σ}
    {move : Int} {d : Direction} (hfinds : ¬MissesZero io ⟨⟨p, t, position, steps⟩, device⟩)
    (hget : p.get? position = some ⟨move, .perform (.scan d)⟩) (hmove : t.moveBy move = .ok t') :
    (t'.scan d).cells[(t'.scan d).cursor]? = some 0 := by
  have hlt := (Tape.moveBy_eq_ok hmove).2.1
  obtain ⟨value, hvalue⟩ := Tape.exists_cell hlt
  obtain ⟨stopped, hstopped⟩ := Tape.exists_cell (Tape.scan_cursor_lt (d := d) hlt)
  have hturn : Machine.turn ⟨p, t, position, steps⟩ =
      (.moved, ⟨p, t'.scan d, position + 1, steps + 1⟩) := by
    rw [Machine.turn_of_moveBy hget hmove hvalue]
    rfl
  by_cases hzero : stopped = 0
  · rw [hstopped, hzero]
  · exact absurd ⟨move, d, _, stopped, hget, dispatch_of_moved hturn, hstopped, hzero⟩ hfinds

/-- **A dispatch does not see the cells beside the tape**, unless it is a scan that misses zero. -/
theorem dispatch_widened
    (hsize : ((left.size + s.machine.tape.size + right.size : Nat) : Int) ≤ greatestPosition)
    (hfinds : ¬s.MissesZero io) (h : s.dispatch io = (.ok (), s')) :
    (s.widened left right).dispatch io = (.ok (), s'.widened left right) := by
  have hprogram := program_of_dispatch h
  obtain ⟨⟨p, t, position, steps⟩, device⟩ := s
  obtain ⟨⟨p', t', position', steps'⟩, device'⟩ := s'
  change p' = p at hprogram
  subst hprogram
  rcases hturn : Machine.turn ⟨p', t, position, steps⟩ with ⟨r, m'⟩
  have hok : ∀ failure, r ≠ .failed failure := by
    rintro failure rfl
    rw [dispatch_of_failed hturn] at h
    cases h
  refine dispatch_seen (Tape.widened_faithful left right) ?_ h
  exact Machine.turn_widened hsize hturn hok fun move d t' => zero_of_not_missesZero hfinds

/-- **A row of dispatches does not see the cells beside the tape**, unless a scan misses zero. -/
theorem after_widened_of_ok {n : Nat}
    (hsize : ((left.size + s.machine.tape.size + right.size : Nat) : Int) ≤ greatestPosition)
    (hfinds : ∀ k S, k < n → s.after io k = .ok S → ¬S.MissesZero io)
    (h : s.after io n = .ok s') :
    (s.widened left right).after io n = .ok (s'.widened left right) := by
  induction n generalizing s with
  | zero =>
    cases h
    rfl
  | succ n ih =>
    obtain ⟨s₁, hdispatch, hafter⟩ := exists_dispatch_of_after h
    rw [after_succ_of_ok (dispatch_widened hsize (hfinds 0 s n.succ_pos rfl) hdispatch)]
    refine ih ?_ ?_ hafter
    · rw [size_of_dispatch hdispatch]
      exact hsize
    · intro k S hk hS
      exact hfinds (k + 1) S (Nat.succ_lt_succ hk) ((after_succ_of_ok hdispatch k).trans hS)

theorem finished_widened (left right : Array UInt8) (s : Session σ) :
    (s.widened left right).machine.finished = s.machine.finished := rfl

/-- A run that does not fail does not see the cells beside the tape, unless a scan misses zero. -/
theorem runFrom_widened {expired : Nat → Bool} {count budget : Nat} {ending : Ending}
    (hsize : ((left.size + s.machine.tape.size + right.size : Nat) : Int) ≤ greatestPosition)
    (hfinds : ∀ k S, k < executedFrom io expired count budget s → s.after io k = .ok S →
      ¬S.MissesZero io)
    (h : runFrom io expired count budget s = (ending, s'))
    (hok : ∀ failure, ending ≠ .failed failure) :
    runFrom io expired count budget (s.widened left right) =
      (ending, s'.widened left right) := by
  induction budget generalizing s count with
  | zero =>
    rw [runFrom] at h ⊢
    rw [finished_widened]
    split at h
    next hfinished =>
      rw [if_pos hfinished]
      cases h
      rfl
    next hfinished =>
      rw [if_neg hfinished]
      cases h
      rfl
  | succ budget ih =>
    obtain ⟨k, hk, hrun⟩ := runFrom_cases h
    rw [hk] at hfinds
    cases hrun with
    | finished hfinished =>
      exact runFrom_of_finished ((finished_widened left right _).trans hfinished) ..
    | failed => exact absurd rfl (hok _)
    | timedOut hfinished hdispatch hexpired =>
      have hfirst := dispatch_widened hsize (hfinds 0 s Nat.one_pos rfl) hdispatch
      have hfinished' := (finished_widened left right s).trans hfinished
      rw [runFrom_of_dispatch hfinished' hfirst, if_pos hexpired]
    | @goesOn s₁ _ _ hfinished hdispatch hexpired hrest =>
      have hfirst := dispatch_widened hsize (hfinds 0 s (Nat.succ_pos _) rfl) hdispatch
      have hfinished' := (finished_widened left right s).trans hfinished
      rw [runFrom_of_dispatch hfinished' hfirst, hexpired, if_neg Bool.false_ne_true]
      refine ih ?_ ?_ hrest
      · rw [size_of_dispatch hdispatch]
        exact hsize
      · intro k S hk hS
        exact hfinds (k + 1) S (Nat.succ_lt_succ hk) ((after_succ_of_ok hdispatch k).trans hS)

/-- In front of a row of dispatches that go well there are shorter ones. -/
theorem exists_after_of_le {m n : Nat} (h : s.after io n = .ok s') (hle : m ≤ n) :
    ∃ S, s.after io m = .ok S := by
  obtain ⟨more, rfl⟩ := Nat.exists_eq_add_of_le hle
  rw [after_add] at h
  cases hafter : s.after io m with
  | ok S => exact ⟨S, rfl⟩
  | error e =>
    rw [hafter] at h
    cases h

/-- **Widening the tape changes nothing** for dispatches that go well and scans that end on zero:
after each dispatch the program is where it would be, has executed as much, and has read and written
the same, the tape is what it would be with the further cells beside it as they were, and the cursor
is on the same cell. So a run that completes without a scan that misses zero completes likewise. -/
theorem after_widened (io : Console σ) (device : σ) (p : Program) {t : Tape}
    (left right : Array UInt8)
    (hsize : ((left.size + t.size + right.size : Nat) : Int) ≤ greatestPosition) :
    (∀ n S, after io.logged n ⟨.start p t, (device, [])⟩ = .ok S →
      (∀ k S', k < n → after io.logged k ⟨.start p t, (device, [])⟩ = .ok S' →
        ¬S'.MissesZero io.logged) →
      ∀ k, k ≤ n → ∃ S', after io.logged k ⟨.start p t, (device, [])⟩ = .ok S' ∧
        after io.logged k ⟨.start p (t.widened left right), (device, [])⟩ =
          .ok (S'.widened left right)) ∧
    (∀ expired budget S,
      run io.logged expired budget ⟨.start p t, (device, [])⟩ = (.completed, S) →
      (∀ k S', k < S.machine.steps → after io.logged k ⟨.start p t, (device, [])⟩ = .ok S' →
        ¬S'.MissesZero io.logged) →
      run io.logged expired budget ⟨.start p (t.widened left right), (device, [])⟩ =
        (.completed, S.widened left right)) := by
  constructor
  · intro n S hafter hfinds k hk
    obtain ⟨S', hafter'⟩ := exists_after_of_le hafter hk
    refine ⟨S', hafter', ?_⟩
    exact after_widened_of_ok (s := ⟨.start p t, (device, [])⟩) hsize
      (fun k' S hk' => hfinds k' S (Nat.lt_of_lt_of_le hk' hk)) hafter'
  · intro expired budget S hrun hfinds
    obtain ⟨S₁, hexecutes, hends⟩ := exists_executes_of_runFrom hrun
    have hsteps : S.machine.steps = executedFrom io.logged expired 0 budget
        ⟨.start p t, (device, [])⟩ := by
      cases hends with
      | completed => exact hexecutes.steps.trans (Nat.zero_add _)
      | goesOn hover => cases hover
    rw [hsteps] at hfinds
    exact runFrom_widened (s := ⟨.start p t, (device, [])⟩) hsize hfinds hrun nofun

/-- A scan that ends on the first of two cells, which is zero, does not go on to the one beside it. -/
theorem after_widened_scan :
    ∃ (p : Program) (s S : Session (Exchange × List Event)),
      Program.compile "+[<]>." = .ok p ∧
      s = ⟨.start p ⟨#[0, 0], 1⟩, (.start (.bytes []), [])⟩ ∧
      S = ⟨⟨p, ⟨#[0, 1], 1⟩, 3, 3⟩, (⟨.bytes [], #[1]⟩, [.write 1 (.ok ())])⟩ ∧
      s.after Console.fed.logged 3 = .ok S ∧
      (∀ k S', k < 3 → s.after Console.fed.logged k = .ok S' → ¬S'.MissesZero Console.fed.logged) ∧
      (∀ k, k ≤ 3 → ∃ S', s.after Console.fed.logged k = .ok S' ∧
        after Console.fed.logged k ⟨.start p ⟨#[7, 0, 0, 9, 9], 2⟩, (.start (.bytes []), [])⟩ =
          .ok (S'.widened #[7] #[9, 9])) ∧
      run Console.fed.logged (fun _ => false) 9
          ⟨.start p ⟨#[7, 0, 0, 9, 9], 2⟩, (.start (.bytes []), [])⟩ =
        (.completed,
          ⟨⟨p, ⟨#[7, 0, 1, 9, 9], 2⟩, 3, 3⟩, (⟨.bytes [], #[1]⟩, [.write 1 (.ok ())])⟩) := by
  have hcompile : Program.compile "+[<]>." =
      .ok ⟨#[⟨0, .perform (.add 1)⟩, ⟨0, .perform (.scan .left)⟩, ⟨1, .perform .write⟩]⟩ := by
    decide +kernel
  obtain ⟨hafter, hrun⟩ := after_widened Console.fed (.start (.bytes []))
    ⟨#[⟨0, .perform (.add 1)⟩, ⟨0, .perform (.scan .left)⟩, ⟨1, .perform .write⟩]⟩
    (t := ⟨#[0, 0], 1⟩) #[7] #[9, 9] (by decide)
  refine ⟨_, _, _, hcompile, rfl, rfl, rfl, ?finds, hafter 3 _ rfl ?finds,
    hrun (fun _ => false) 9 _ rfl ?finds⟩
  rintro k S' hk hS' ⟨move, d, s', value, hget, hdispatch, hcell, hvalue⟩
  match k, hk with
  | 0, _ =>
    cases hS'
    cases hget
  | 1, _ =>
    cases hS'
    cases hdispatch
    cases hcell
    exact hvalue rfl
  | 2, _ =>
    cases hS'
    cases hget

end Session

end Brainfuck
