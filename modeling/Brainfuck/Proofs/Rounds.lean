import Brainfuck.Proofs.Cells
import Brainfuck.Proofs.Running

/-!
# Loop idioms, round by round

What the plain interpreter makes of the loops that a program executes at once.

A loop whose every round raises the cells by the same gain, and its own cell by one either way, ends
with that gain taken as often as the cell says (`Loop.rounds`). Clearing and copying loops are of
that kind: `clear_reaches`, `copy_reaches`. In a copying loop every round goes to the same cells, so
if one of them is not on the tape, the first round comes to it (`copy_offTape`).

A scanning loop goes on as a scan does, cell by cell, but does not stop at the edge: where the scan
ends on a nonzero cell, the loop leaves the tape at its `]` (`scan_cases`).
-/

namespace Brainfuck.Plain

variable {σ : Type} {io : Console σ} {commands : List Command} {device : σ}

/-! ## The cell under the cursor -/

theorem cell?_eq_some {s : State σ} {value : UInt8} (h : s.cell? = some value) :
    0 ≤ s.cursor ∧ s.tape.cells[s.cursor.toNat]? = some value := by
  unfold State.cell? at h
  split at h
  next hnonneg => exact ⟨hnonneg, h⟩
  next => cases h

theorem exists_cell {s : State σ} (h : s.tape.Holds s.cursor) :
    ∃ value, s.tape.cells[s.cursor.toNat]? = some value ∧ s.cell? = some value := by
  obtain ⟨hnonneg, hlt⟩ := h
  have hlt : s.cursor.toNat < s.tape.cells.size := by
    unfold Tape.size at hlt
    omega
  unfold State.cell?
  rw [if_pos hnonneg, Array.getElem?_eq_getElem hlt]
  exact ⟨_, rfl, rfl⟩

theorem holds_of_cell {s : State σ} {value : UInt8} (h : s.cell? = some value) :
    s.tape.Holds s.cursor := by
  obtain ⟨hnonneg, hvalue⟩ := cell?_eq_some h
  obtain ⟨hlt, -⟩ := Array.getElem?_eq_some_iff.mp hvalue
  refine ⟨hnonneg, ?_⟩
  unfold Tape.size
  omega

theorem cell?_of_not_holds {s : State σ} (h : ¬s.tape.Holds s.cursor) : s.cell? = none := by
  cases hcell : s.cell? with
  | none => rfl
  | some value => exact absurd (holds_of_cell hcell) h

theorem cell?_natCast {k position : Nat} {t : Tape} {value : UInt8}
    (h : t.cells[k]? = some value) (device : σ) :
    (State.mk position (k : Int) t device).cell? = some value := by
  unfold State.cell?
  rw [if_pos (Int.natCast_nonneg k)]
  exact h

/-- The arithmetic commands, and what they add to the cell. -/
inductive Adds : Command → UInt8 → Prop
  | increment : Adds .increment 1
  | decrement : Adds .decrement (-1)

theorem Adds.eq_or_eq {c : Command} {amount : UInt8} (h : Adds c amount) :
    amount = 1 ∨ amount = -1 := by
  cases h with
  | increment => exact Or.inl rfl
  | decrement => exact Or.inr rfl

variable (io device) in
/-- An arithmetic command is a gain in the cell under the cursor. -/
theorem Adds.step {c : Command} {amount : UInt8} (h : Adds c amount) {position last : Nat}
    {cursor : Int} {cells : Array UInt8} (hcommand : commands[position]? = some c)
    (hholds : (Tape.mk cells last).Holds cursor) :
    step io commands ⟨position, cursor, ⟨cells, last⟩, device⟩ =
      .next ⟨position + 1, cursor, ⟨raise (gainAt cursor.toNat amount) cells, cursor.toNat⟩,
        device⟩ := by
  -- whatever the value is, it changes by `amount`
  obtain ⟨value, hvalue, hcell⟩ := exists_cell (s := State.mk position cursor _ device) hholds
  have hraise := setIfInBounds_eq_raise hvalue (value + amount)
  rw [show value + amount - value = amount by grind] at hraise
  rw [← hraise]
  cases h with
  | increment =>
    rw [step_of_cell io hcommand rfl hcell]
    rfl
  | decrement =>
    have hsub : value + -1 = value - 1 := by grind
    rw [step_of_cell io hcommand rfl hcell, hsub]
    rfl

variable (io device) in
/-- A run of the same arithmetic command. -/
theorem Adds.run {c : Command} {amount : UInt8} (h : Adds c amount) {more position : Nat}
    (hsegment : Segment commands position (List.replicate (more + 1) c)) {cursor : Int}
    {cells : Array UInt8} {last : Nat} (hholds : (Tape.mk cells last).Holds cursor) :
    Reaches io commands (more + 1) ⟨position, cursor, ⟨cells, last⟩, device⟩
      ⟨position + (more + 1), cursor,
        ⟨raise (gainAt cursor.toNat (UInt8.ofNat (more + 1) * amount)) cells, cursor.toNat⟩,
        device⟩ := by
  induction more generalizing position cells last with
  | zero =>
    have hstep := h.step io device hsegment.head hholds
    rw [show UInt8.ofNat (0 + 1) * amount = amount from UInt8.one_mul amount]
    exact .one hstep
  | succ more ih =>
    rw [List.replicate_succ] at hsegment
    have hstep := h.step io device hsegment.head hholds
    have hlater :
        (Tape.mk (raise (gainAt cursor.toNat amount) cells) cursor.toNat).Holds cursor :=
      Tape.holds_raise_iff.mpr hholds
    have hrest := ih hsegment.tail hlater
    -- the first of them and the others add up
    have hgain : (fun i => gainAt cursor.toNat amount i +
        gainAt cursor.toNat (UInt8.ofNat (more + 1) * amount) i) =
        gainAt cursor.toNat (UInt8.ofNat (more + 1 + 1) * amount) := by
      funext i
      rw [UInt8.ofNat_add (more + 1) 1]
      unfold gainAt
      split <;> grind
    rw [raise_raise, hgain, Nat.add_assoc, Nat.add_comm 1] at hrest
    exact .head hstep hrest

/-! ## Reading and writing -/

section Devices

variable {s : State σ} {device' : σ} {value : UInt8} {e : DeviceError}

theorem execute_read {byte : Option UInt8} (h : io.read s.device = (.ok byte, device')) :
    execute io commands .read value s =
      .next ⟨s.position + 1, s.cursor, s.tape.receive byte, device'⟩ := by
  unfold execute Tape.receive
  rw [h]
  cases byte with
  | none => rfl
  | some value =>
    dsimp only
    split <;> rfl

theorem execute_read_failed (h : io.read s.device = (.error e, device')) :
    execute io commands .read value s = .failed e (s.withDevice device') := by
  unfold execute
  rw [h]

theorem execute_write (h : io.write value s.device = (.ok (), device')) :
    execute io commands .write value s = .next ⟨s.position + 1, s.cursor, s.tape, device'⟩ := by
  unfold execute
  rw [h]
  rfl

theorem execute_write_failed (h : io.write value s.device = (.error e, device')) :
    execute io commands .write value s = .failed e (s.withDevice device') := by
  unfold execute
  rw [h]

end Devices

/-! ## Rounds -/

section Rounds

variable {start stop k : Nat} {gain : Nat → UInt8} {size : Nat}

/-- **A loop runs until its cell is zero.** The value `-(w * gain k)` is zero after just `w` rounds,
since a round changes the cell by one. -/
theorem Loop.rounds (hloop : Loop commands start stop) (hunit : gain k = 1 ∨ gain k = -1)
    (hbody : ∀ cells : Array UInt8, cells.size = size → ∃ n last, Reaches io commands n
      ⟨start + 1, k, ⟨cells, k⟩, device⟩ ⟨stop, k, ⟨raise gain cells, last⟩, device⟩)
    {w : UInt8} (hw : w ≠ 0) {cells : Array UInt8} (hsize : cells.size = size)
    (hcell : cells[k]? = some (-(w * gain k))) :
    ∃ n, Reaches io commands n ⟨start + 1, k, ⟨cells, k⟩, device⟩
      ⟨stop + 1, k, ⟨raise (fun i => w * gain i) cells, k⟩, device⟩ := by
  induction hrounds : w.toNat using Nat.strongRecOn generalizing w cells with
  | ind rounds ih =>
    subst hrounds
    obtain ⟨n, last, hround⟩ := hbody cells hsize
    have hvalue : (raise gain cells)[k]? = some (-((w - 1) * gain k)) := by
      rw [getElem?_raise, hcell, Option.map_some]
      congr 1
      grind
    have hbracket := hloop.step_endLoop io rfl
      (cell?_natCast (t := ⟨raise gain cells, last⟩) hvalue device)
    by_cases hlast : w = 1
    · -- the last round
      subst hlast
      have hzero : -((1 - 1) * gain k) = 0 := by grind
      rw [bracketTarget, if_pos hzero] at hbracket
      have hgain : (fun i => 1 * gain i) = gain := funext fun i => UInt8.one_mul (gain i)
      rw [hgain]
      exact ⟨n + 1, hround.step hbracket⟩
    · -- `w - 1` rounds are left
      have hnonzero : -((w - 1) * gain k) ≠ 0 := by
        rcases hunit with hunit | hunit <;> rw [hunit] <;> grind
      rw [bracketTarget, if_neg hnonzero] at hbracket
      have hless : (w - 1).toNat < w.toNat := by
        have hpos : w.toNat ≠ 0 := fun h => hw (UInt8.toNat_inj.mp h)
        have := w.toNat_lt
        rw [UInt8.toNat_sub, show (1 : UInt8).toNat = 1 from rfl]
        omega
      obtain ⟨m, hlater⟩ := ih (w - 1).toNat hless (fun h => hlast (by grind))
        (size_raise.trans hsize) hvalue rfl
      have hgain : (fun i => gain i + (w - 1) * gain i) = fun i => w * gain i := by
        funext i
        grind
      rw [raise_raise, hgain] at hlater
      exact ⟨n + 1 + m, (hround.step hbracket).trans hlater⟩

/-- A whole loop, entered or skipped. -/
theorem Loop.reaches (hloop : Loop commands start stop) (hunit : gain k = 1 ∨ gain k = -1)
    (hbody : ∀ cells : Array UInt8, cells.size = size → ∃ n last, Reaches io commands n
      ⟨start + 1, k, ⟨cells, k⟩, device⟩ ⟨stop, k, ⟨raise gain cells, last⟩, device⟩)
    {w : UInt8} {cells : Array UInt8} (last : Nat) (hsize : cells.size = size)
    (hcell : cells[k]? = some (-(w * gain k))) :
    ∃ n, Reaches io commands (n + 1) ⟨start, k, ⟨cells, last⟩, device⟩
      ⟨stop + 1, k, ⟨raise (fun i => w * gain i) cells, k⟩, device⟩ := by
  have hbracket := hloop.step_beginLoop io rfl (cell?_natCast (t := ⟨cells, last⟩) hcell device)
  by_cases hw : w = 0
  · subst hw
    have hzero : -(0 * gain k) = 0 := by grind
    rw [bracketTarget, if_pos hzero] at hbracket
    refine ⟨0, .one (hbracket.trans ?_)⟩
    rw [raise_of_zero fun i => UInt8.zero_mul]
    rfl
  · have hnonzero : -(w * gain k) ≠ 0 := by
      rcases hunit with hunit | hunit <;> rw [hunit] <;> grind
    rw [bracketTarget, if_neg hnonzero] at hbracket
    obtain ⟨n, hrounds⟩ := hloop.rounds hunit hbody hw hsize hcell
    exact ⟨n, .head hbracket hrounds⟩

end Rounds

/-! ## Clearing -/

variable (io device) in
/-- `[-]` and `[+]` clear the cell. -/
theorem clear_reaches {c : Command} {amount : UInt8} (h : Adds c amount) {start k : Nat}
    (hsegment : Segment commands start [.beginLoop, c, .endLoop])
    (hloop : Loop commands start (start + 2)) {cells : Array UInt8} {value : UInt8}
    (hcell : cells[k]? = some value) (last : Nat) :
    ∃ n, Reaches io commands (n + 1) ⟨start, k, ⟨cells, last⟩, device⟩
      ⟨start + 3, k, ⟨cells.setIfInBounds k 0, k⟩, device⟩ := by
  obtain ⟨hk, -⟩ := Array.getElem?_eq_some_iff.mp hcell
  have hamount := h.eq_or_eq
  -- it takes `-(value * amount)` rounds, each of which adds `amount`
  have hgain : (fun i => -(value * amount) * gainAt k amount i) = gainAt k (-value) := by
    funext i
    unfold gainAt
    rcases hamount with rfl | rfl <;> split <;> grind
  have hvalue : value = -(-(value * amount) * gainAt k amount k) := by
    rw [gainAt_self]
    rcases hamount with rfl | rfl <;> grind
  rw [setIfInBounds_eq_raise hcell, UInt8.zero_sub, ← hgain]
  refine hloop.reaches ?_ (fun cells' hsize => ?_) last rfl (hvalue ▸ hcell)
  · rw [gainAt_self]
    exact hamount
  · exact ⟨1, k, .one (h.step io device hsegment.tail.head (Tape.holds_natCast (hsize ▸ hk) k))⟩

/-! ## Copying -/

section Copying

variable {d : Direction} {k : Nat}

open Idiom

variable (io device) in
/-- One move of a walk that has come to `depth`. -/
theorem step_walk {position : Nat} (h : commands[position]? = some (.move d)) (cursor : Int)
    (depth : Nat) (tape : Tape) :
    step io commands ⟨position, cursor + d.unit * depth, tape, device⟩ =
      .next ⟨position + 1, cursor + d.unit * (depth + 1 : Nat), tape, device⟩ := by
  have hcursor : cursor + d.unit * depth + d.unit = cursor + d.unit * (depth + 1 : Nat) := by
    cases d <;> simp only [Direction.unit] <;> omega
  rw [← hcursor]
  exact step_move io h

/-! The first token of a walk, in what the walk adds -/

theorem gainOf_targetsFrom_move {t : Token} {walk : List Token} (h : t.command = .move d)
    (depth : Nat) :
    gainOf k (targetsFrom d depth 0 (t :: walk)) = gainOf k (targetsFrom d (depth + 1) 0 walk) :=
  gainOf_congr k (tally_targetsFrom_move h depth)

theorem gainOf_targetsFrom_increment {t : Token} {walk : List Token}
    (hwalk : ∀ t ∈ walk, outbound d t) (h : t.command = .increment) {depth : Nat}
    (hnonneg : 0 ≤ (k : Int) + d.unit * depth) :
    gainOf k (targetsFrom d depth 0 (t :: walk)) =
      fun i => gainAt (k + d.unit * depth).toNat 1 i + gainOf k (targetsFrom d depth 0 walk) i := by
  have htally : ∀ offset, tally (targetsFrom d depth 0 (t :: walk)) offset =
      tally (⟨d.unit * depth, 1⟩ :: targetsFrom d depth 0 walk) offset := by
    intro offset
    rw [tally_targetsFrom_increment hwalk h, tally_cons]
  rw [gainOf_congr k htally]
  funext i
  exact gainOf_cons hnonneg 1 _ i

variable (io device) in
/-- The walk of a copying loop adds to its targets. -/
theorem walk_reaches {walk : List Token} (hwalk : ∀ t ∈ walk, outbound d t) {position : Nat}
    (hsegment : Segment commands position (walk.map (·.command))) (depth : Nat)
    (cells : Array UInt8)
    (hholds : ∀ offset, tally (targetsFrom d depth 0 walk) offset ≠ 0 →
      (Tape.mk cells k).Holds (k + offset)) (last : Nat) :
    ∃ last', Reaches io commands walk.length
      ⟨position, k + d.unit * depth, ⟨cells, last⟩, device⟩
      ⟨position + walk.length, k + d.unit * (depth + walk.countP (moves d) : Nat),
        ⟨raise (gainOf k (targetsFrom d depth 0 walk)) cells, last'⟩, device⟩ := by
  induction walk generalizing position depth cells last with
  | nil =>
    have hnone : ∀ i, gainOf k (targetsFrom d depth 0 []) i = 0 := fun i => rfl
    rw [raise_of_zero hnone]
    exact ⟨last, .refl _⟩
  | cons t walk ih =>
    have hlater := fun t' ht' => hwalk t' (List.mem_cons_of_mem t ht')
    rw [List.map_cons] at hsegment
    have hposition : position + (t :: walk).length = position + 1 + walk.length := by
      rw [List.length_cons]
      omega
    rw [hposition]
    rcases outbound_iff.mp (hwalk t List.mem_cons_self) with hmove | hincrement
    · -- one cell further, where nothing has been added yet
      have hstep := step_walk io device (hmove ▸ hsegment.head) k depth ⟨cells, last⟩
      have hcount : depth + (t :: walk).countP (moves d) = depth + 1 + walk.countP (moves d) := by
        rw [countP_moves_of_move walk hmove]
        omega
      obtain ⟨last', hrest⟩ := ih hlater hsegment.tail (depth + 1) cells
        (fun offset hoffset => hholds offset (by rwa [tally_targetsFrom_move hmove])) last
      rw [gainOf_targetsFrom_move hmove, hcount]
      exact ⟨last', .head hstep hrest⟩
    · -- one more in the cell where the walk is, which has to be on the tape
      have hadded := tally_targetsFrom_increment hlater hincrement depth
      have hhere := hholds (d.unit * depth) (by rw [hadded, if_pos rfl]; omega)
      have hstep := Adds.increment.step io device (hincrement ▸ hsegment.head)
        (show (Tape.mk cells last).Holds (k + d.unit * depth) from hhere)
      obtain ⟨last', hrest⟩ := ih hlater hsegment.tail depth
        (raise (gainAt (k + d.unit * depth).toNat 1) cells)
        (fun offset hoffset => Tape.holds_raise_iff.mpr (hholds offset (by rw [hadded]; omega)))
        (k + d.unit * depth).toNat
      rw [raise_raise, ← gainOf_targetsFrom_increment hlater hincrement hhere.1] at hrest
      rw [countP_moves_of_increment walk hincrement]
      exact ⟨last', .head hstep hrest⟩

/-- The targets add something at `offset`, where there is no cell, and at no place nearer to `base`
where there is none. -/
structure Nearest (d : Direction) (t : Tape) (base : Int) (targets : List Target) (offset : Int) :
    Prop where
  adds : tally targets offset ≠ 0
  missing : ¬t.Holds (base + offset)
  nearest : ∀ other, tally targets other ≠ 0 → ¬t.Holds (base + other) →
    d.unit * offset ≤ d.unit * other

/-- Where the walk is, nothing nearer is missing. -/
theorem Nearest.of_here {t : Token} {walk : List Token} (hwalk : ∀ t' ∈ t :: walk, outbound d t')
    (hincrement : t.command = .increment) {depth : Nat} {tape : Tape} {base : Int}
    (hnot : ¬tape.Holds (base + d.unit * depth)) :
    Nearest d tape base (targetsFrom d depth 0 (t :: walk)) (d.unit * depth) := by
  have hlater := fun t' ht' => hwalk t' (List.mem_cons_of_mem t ht')
  refine ⟨?_, hnot, fun other hother _ => ?_⟩
  · rw [tally_targetsFrom_increment hlater hincrement, if_pos rfl]
    omega
  · obtain ⟨u, hu, rfl⟩ := exists_target hother
    obtain ⟨⟨j, hj, -, hoffset⟩, -⟩ := mem_targetsFrom hwalk hu
    rw [hoffset]
    cases d <;> simp only [Direction.unit] <;> omega

/-- Where the walk is, nothing is missing, so it is further on. -/
theorem Nearest.of_later {t : Token} {walk : List Token} (hwalk : ∀ t ∈ walk, outbound d t)
    (hincrement : t.command = .increment) {depth : Nat} {tape : Tape} {base offset : Int}
    (hhere : tape.Holds (base + d.unit * depth))
    (h : Nearest d tape base (targetsFrom d depth 0 walk) offset) :
    Nearest d tape base (targetsFrom d depth 0 (t :: walk)) offset := by
  have hadded := tally_targetsFrom_increment hwalk hincrement depth
  refine ⟨?_, h.missing, fun other hother hnot => ?_⟩
  · have := h.adds
    rw [hadded]
    omega
  · have helse : d.unit * depth ≠ other := by
      rintro rfl
      exact hnot hhere
    rw [hadded, if_neg helse, Nat.zero_add] at hother
    exact h.nearest other hother hnot

theorem Nearest.of_holds_iff {tape tape' : Tape} {base offset : Int} {targets : List Target}
    (hholds : ∀ position, tape.Holds position ↔ tape'.Holds position)
    (h : Nearest d tape base targets offset) : Nearest d tape' base targets offset :=
  ⟨h.adds, fun hheld => h.missing ((hholds _).mpr hheld), fun other hother hnot =>
    h.nearest other hother fun hheld => hnot ((hholds _).mp hheld)⟩

/-- Only the sums of the targets matter. -/
theorem Nearest.of_tally_eq {tape : Tape} {base offset : Int} {targets targets' : List Target}
    (h : Nearest d tape base targets offset)
    (heq : ∀ offset, tally targets offset = tally targets' offset) :
    Nearest d tape base targets' offset :=
  ⟨heq offset ▸ h.adds, h.missing, fun other hother => h.nearest other (heq other ▸ hother)⟩

variable (io device) in
/-- If a target is not on the tape, the walk comes to one that is not, and to the nearest first. -/
theorem walk_offTape {walk : List Token} (hwalk : ∀ t ∈ walk, outbound d t) {position : Nat}
    (hsegment : Segment commands position (walk.map (·.command))) (depth : Nat)
    (cells : Array UInt8)
    (hoff : ∃ offset, tally (targetsFrom d depth 0 walk) offset ≠ 0 ∧
      ¬(Tape.mk cells k).Holds (k + offset)) (last : Nat) :
    ∃ n s, after io commands n ⟨position, k + d.unit * depth, ⟨cells, last⟩, device⟩ = .offTape s ∧
      commands[s.position]? = some .increment ∧ position ≤ s.position ∧
      s.position < position + walk.length ∧ s.device = device ∧
      ∃ offset, s.cursor = k + offset ∧
        Nearest d ⟨cells, k⟩ k (targetsFrom d depth 0 walk) offset := by
  induction walk generalizing position depth cells last with
  | nil =>
    obtain ⟨offset, hoffset, -⟩ := hoff
    exact absurd rfl hoffset
  | cons t walk ih =>
    have hlater := fun t' ht' => hwalk t' (List.mem_cons_of_mem t ht')
    obtain ⟨offset, hoffset, hnot⟩ := hoff
    rw [List.map_cons] at hsegment
    rcases outbound_iff.mp (hwalk t List.mem_cons_self) with hmove | hincrement
    · have hstep := step_walk io device (hmove ▸ hsegment.head) k depth
        ⟨cells, last⟩
      rw [tally_targetsFrom_move hmove] at hoffset
      obtain ⟨n, s, hafter, hcommand, hle, hlt, hdevice, near, hcursor, hnear⟩ :=
        ih hlater hsegment.tail (depth + 1) cells ⟨offset, hoffset, hnot⟩ last
      refine ⟨n + 1, s, ?_, hcommand, by omega, by rw [List.length_cons]; omega, hdevice, near,
        hcursor, ?_⟩
      · rw [after_succ_of_next hstep]
        exact hafter
      · rwa [targetsFrom_move walk hmove, targetAt, if_pos rfl, List.nil_append]
    · by_cases hhere : (Tape.mk cells last).Holds (k + d.unit * depth)
      · have hstep := Adds.increment.step io device (hincrement ▸ hsegment.head) hhere
        -- there is a cell here, so it is another one that is missing
        have helse : d.unit * depth ≠ offset := by
          rintro rfl
          exact hnot hhere
        rw [tally_targetsFrom_increment hlater hincrement, if_neg helse, Nat.zero_add] at hoffset
        obtain ⟨n, s, hafter, hcommand, hle, hlt, hdevice, near, hcursor, hnear⟩ :=
          ih hlater hsegment.tail depth (raise (gainAt (k + d.unit * depth).toNat 1) cells)
            ⟨offset, hoffset, fun hholds => hnot (Tape.holds_raise_iff.mp hholds)⟩
            (k + d.unit * depth).toNat
        refine ⟨n + 1, s, ?_, hcommand, by omega, by rw [List.length_cons]; omega, hdevice, near,
          hcursor, (hnear.of_holds_iff fun _ => Tape.holds_raise_iff).of_later hlater hincrement
            hhere⟩
        rw [after_succ_of_next hstep]
        exact hafter
      · -- here it is
        have hcommand : commands[position]? = some .increment := hincrement ▸ hsegment.head
        have hstop : step io commands ⟨position, k + d.unit * depth, ⟨cells, last⟩, device⟩ = _ :=
          step_of_offTape io hcommand rfl (cell?_of_not_holds hhere)
        refine ⟨1, _, after_succ_of_stopped hstop (.offTape _) 0, hcommand,
          Nat.le_refl _, ?_, rfl, _, rfl, .of_here hwalk hincrement hhere⟩
        rw [List.length_cons]
        exact Nat.lt_add_of_pos_right (Nat.succ_pos _)

variable (io device) in
/-- Moves one way are made without a look at the tape. -/
theorem moves_reach {n position : Nat}
    (hsegment : Segment commands position (List.replicate n (.move d))) (cursor : Int)
    (depth : Nat) (tape : Tape) :
    Reaches io commands n ⟨position, cursor + d.unit * depth, tape, device⟩
      ⟨position + n, cursor + d.unit * (depth + n : Nat), tape, device⟩ := by
  induction n generalizing position depth with
  | zero => exact .refl _
  | succ n ih =>
    rw [List.replicate_succ] at hsegment
    have hstep := step_walk io device hsegment.head cursor depth tape
    have hrest := ih hsegment.tail (depth + 1)
    rw [Nat.add_assoc, Nat.add_assoc, Nat.add_comm 1 n] at hrest
    exact .head hstep hrest

/-- What one round of a copying loop adds to the cells. -/
def copyGain (d : Direction) (k : Nat) (walk : List Token) (i : Nat) : UInt8 :=
  gainAt k (-1) i + gainOf k (targets d walk) i

theorem mul_copyGain (value : UInt8) (walk : List Token) (i : Nat) :
    value * copyGain d k walk i = gainAt k (-value) i + value * gainOf k (targets d walk) i := by
  have hneg : value * -1 = -value := by grind
  rw [copyGain, UInt8.mul_add, mul_gainAt, hneg]

theorem copyGain_eq (walk : List Token) :
    copyGain d k walk = fun i => gainAt k (-1) i + gainOf k (targetsFrom d 0 0 walk) i := by
  funext i
  rw [copyGain, gainOf_congr k (tally_targets walk)]

section Loops

variable {first : Token} {rest : List Token} (hfirst : first.command = .move d)
  (hrest : ∀ t ∈ rest, outbound d t) {start : Nat}
  (hsegment : Segment commands start (copyCommands d (first :: rest)))
  (hloop : Loop commands start
    (start + 2 + (first :: rest).length + (first :: rest).countP (moves d)))
  {cells : Array UInt8} {value : UInt8} (hcell : cells[k]? = some value)

include hfirst hrest in
/-- The copied cell is no target of its own. -/
theorem gainOf_targets_self : gainOf k (targets d (first :: rest)) k = 0 := by
  have hnone : tally (targets d (first :: rest)) ((k : Int) - k) = 0 := by
    apply tally_eq_zero
    intro t ht
    obtain ⟨⟨j, hj, -, hoffset⟩, -⟩ := mem_targets hfirst hrest ht
    rw [hoffset]
    cases d <;> simp only [Direction.unit] <;> omega
  rw [gainOf, hnone]
  rfl

include hfirst hrest in
theorem copyGain_self : copyGain d k (first :: rest) k = -1 := by
  rw [copyGain, gainAt_self, gainOf_targets_self hfirst hrest]
  rfl

variable (io device)

include hfirst hrest hsegment in
/-- One round of a copying loop: down by one, out along the walk, and back. -/
theorem copy_round {cells : Array UInt8} (hk : k < cells.size)
    (hholds : ∀ t ∈ targets d (first :: rest), (Tape.mk cells k).Holds (k + t.offset)) :
    ∃ n last, Reaches io commands n ⟨start + 1, k, ⟨cells, k⟩, device⟩
      ⟨start + 2 + (first :: rest).length + (first :: rest).countP (moves d), k,
        ⟨raise (copyGain d k (first :: rest)) cells, last⟩, device⟩ := by
  have hdown := Adds.decrement.step io device hsegment.left.left.left.tail.head
    (Tape.holds_natCast hk k)
  have hwalk : ∀ offset, tally (targetsFrom d 0 0 (first :: rest)) offset ≠ 0 →
      (Tape.mk (raise (gainAt k (-1)) cells) k).Holds (k + offset) := by
    intro offset hoffset
    rw [← tally_targets] at hoffset
    obtain ⟨t, ht, rfl⟩ := exists_target hoffset
    exact Tape.holds_raise_iff.mpr (hholds t ht)
  obtain ⟨last, hout⟩ := walk_reaches io device (forall_outbound hfirst hrest)
    hsegment.left.left.right 0 (raise (gainAt k (-1)) cells) hwalk k
  have hback := moves_reach io device hsegment.left.right
    (k + d.unit * (0 + (first :: rest).countP (moves d) : Nat)) 0
    ⟨raise (copyGain d k (first :: rest)) cells, last⟩
  -- the cursors and the positions at which the three parts meet
  have hnone : ∀ (c : Int) (d : Direction), c + d.unit * (0 : Nat) = c := by
    intro c d
    rw [Int.natCast_zero, Int.mul_zero, Int.add_zero]
  have hreturn : ∀ n : Nat,
      (k : Int) + d.unit * (0 + n : Nat) + d.opposite.unit * (0 + n : Nat) = k := by
    intro n
    cases d <;> simp only [Direction.unit, Direction.opposite] <;> omega
  have hposition :
      start + ([Command.beginLoop, .decrement] ++ (first :: rest).map (·.command)).length =
        start + 2 + (first :: rest).length := by
    simp only [List.length_append, List.length_map, List.length_cons, List.length_nil]
    omega
  rw [hnone, raise_raise, ← copyGain_eq] at hout
  rw [hreturn, hnone, hposition] at hback
  exact ⟨_, _, (Reaches.head hdown hout).trans hback⟩

include hfirst hrest hsegment hloop hcell in
/-- **A copying loop** whose targets are on the tape adds to each of them a multiple of the cell,
and clears it. -/
theorem copy_reaches
    (hholds : ∀ t ∈ targets d (first :: rest), (Tape.mk cells k).Holds (k + t.offset))
    (last : Nat) :
    ∃ n, Reaches io commands (n + 1) ⟨start, k, ⟨cells, last⟩, device⟩
      ⟨start + 2 + (first :: rest).length + (first :: rest).countP (moves d) + 1, k,
        ⟨(raise (fun i => value * gainOf k (targets d (first :: rest)) i) cells).setIfInBounds k 0,
          k⟩, device⟩ := by
  obtain ⟨hk, -⟩ := Array.getElem?_eq_some_iff.mp hcell
  have hunit := copyGain_self hfirst hrest (k := k)
  have hvalue : value = -(value * copyGain d k (first :: rest) k) := by
    rw [hunit]
    grind
  have hself : value * gainOf k (targets d (first :: rest)) k = 0 := by
    rw [gainOf_targets_self hfirst hrest]
    exact UInt8.mul_zero
  have hclear : (fun i => gainAt k (-value) i + value * gainOf k (targets d (first :: rest)) i) =
      fun i => value * copyGain d k (first :: rest) i := by
    funext i
    exact (mul_copyGain value (first :: rest) i).symm
  rw [setIfInBounds_raise hcell hself, hclear]
  refine hloop.reaches (Or.inr hunit) ?_ last rfl (hvalue ▸ hcell)
  intro cells' hsize
  exact copy_round io device hfirst hrest hsegment (hsize ▸ hk) fun t ht =>
    (Tape.holds_congr hsize).mpr (hholds t ht)

include hfirst hrest hsegment hloop hcell in
/-- A copying loop that is entered comes to every target, and to the nearest first. -/
theorem copy_offTape (hvalue : value ≠ 0)
    (hoff : ∃ t ∈ targets d (first :: rest), ¬(Tape.mk cells k).Holds (k + t.offset))
    (last : Nat) :
    ∃ n s, after io commands n ⟨start, k, ⟨cells, last⟩, device⟩ = .offTape s ∧
      commands[s.position]? = some .increment ∧ start ≤ s.position ∧
      s.position < start + 2 + (first :: rest).length ∧ s.device = device ∧
      ∃ offset, s.cursor = k + offset ∧ Nearest d ⟨cells, k⟩ k (targets d (first :: rest)) offset := by
  obtain ⟨hk, -⟩ := Array.getElem?_eq_some_iff.mp hcell
  have hopen := hloop.step_beginLoop io rfl (cell?_natCast (t := ⟨cells, last⟩) hcell device)
  rw [bracketTarget, if_neg hvalue] at hopen
  have hdown := Adds.decrement.step io device hsegment.left.left.left.tail.head
    (Tape.holds_natCast hk k)
  obtain ⟨t, ht, hnot⟩ := hoff
  obtain ⟨-, hfactor⟩ := mem_targets hfirst hrest ht
  have hoffset := tally_ne_zero ht hfactor
  rw [tally_targets] at hoffset
  obtain ⟨n, s, hafter, hcommand, hle, hlt, hdevice, near, hcursor, hnear⟩ := walk_offTape io device
    (forall_outbound hfirst hrest) hsegment.left.left.right 0 (raise (gainAt k (-1)) cells)
    ⟨t.offset, hoffset, fun hholds => hnot (Tape.holds_raise_iff.mp hholds)⟩ k
  have hstart : (k : Int) + d.unit * (0 : Nat) = k := by cases d <;> simp
  rw [hstart] at hafter
  refine ⟨n + 1 + 1, s, ?_, hcommand, Nat.le_trans (Nat.le_add_right start 2) hle, hlt, hdevice,
    near, hcursor, (hnear.of_holds_iff fun _ => Tape.holds_raise_iff).of_tally_eq fun offset =>
      (tally_targets _ offset).symm⟩
  rw [after_succ_of_next hopen]
  exact (after_succ_of_next hdown n).trans hafter

end Loops

end Copying

/-! ## Scanning -/

section Scanning

variable {d : Direction} {start : Nat}

/-- What a scanning loop comes to from the state `s`, where the scan is one of the tape `t`. -/
def ScanEnds (io : Console σ) (commands : List Command) (d : Direction) (start : Nat) (t : Tape)
    (s : State σ) : Prop :=
  ((t.scan d).cells[(t.scan d).cursor]? = some 0 ∧
      ∃ n, Reaches io commands n s ⟨start + 3, (t.scan d).cursor, t.scan d, s.device⟩) ∨
    (t.scan d).Clamped d ∧ ∃ n s', after io commands n s = .offTape s' ∧
      s'.position = start + 2 ∧ s'.tape = t.scan d ∧ s'.device = s.device

theorem ScanEnds.head {t : Tape} {s s' : State σ} (h : ScanEnds io commands d start t s')
    (hstep : step io commands s = .next s') (hdevice : s'.device = s.device) :
    ScanEnds io commands d start t s := by
  unfold ScanEnds at h ⊢
  rw [← hdevice]
  rcases h with ⟨hzero, n, hreaches⟩ | ⟨hclamped, n, s'', hafter, hrest⟩
  · exact Or.inl ⟨hzero, n + 1, .head hstep hreaches⟩
  · exact Or.inr ⟨hclamped, n + 1, s'', (after_succ_of_next hstep n).trans hafter, hrest⟩

variable (io device) in
/-- Each round goes on by one cell, as the scan does. -/
theorem scan_rounds (hsegment : Segment commands start [.beginLoop, .move d, .endLoop])
    (hloop : Loop commands start (start + 2)) {t : Tape} {value : UInt8}
    (hcell : t.cells[t.cursor]? = some value) (hvalue : value ≠ 0) :
    ScanEnds io commands d start t ⟨start + 1, t.cursor, t, device⟩ := by
  induction hroom : t.room d using Nat.strongRecOn generalizing t value with
  | ind room ih =>
    subst hroom
    obtain ⟨hlt, -⟩ := Array.getElem?_eq_some_iff.mp hcell
    have hmove : step io commands ⟨start + 1, t.cursor, t, device⟩ = _ :=
      step_move io hsegment.tail.head
    -- the move itself looks at no cell
    refine ScanEnds.head ?_ hmove rfl
    by_cases hnext : t.Holds (t.cursor + d.unit)
    · obtain ⟨value', hcell', hunder⟩ :=
        exists_cell (s := State.move d ⟨start + 1, (t.cursor : Int), t, device⟩) hnext
      have hbracket := hloop.step_endLoop io rfl hunder
      have hcursor : (t.cursor : Int) + d.unit = ((t.cursor + d.unit).toNat : Nat) :=
        (Int.toNat_of_nonneg hnext.1).symm
      have hscan := Tape.scan_of_next hcell hvalue hnext
      refine ScanEnds.head ?_ hbracket rfl
      show ScanEnds io commands d start t
        ⟨bracketTarget start (start + 2) value', t.cursor + d.unit,
          ⟨t.cells, (t.cursor + d.unit).toNat⟩, device⟩
      unfold ScanEnds
      rw [hscan, hcursor, Int.toNat_natCast]
      by_cases hvalue' : value' = 0
      · subst hvalue'
        rw [Tape.scan_of_zero hcell', bracketTarget, if_pos rfl]
        exact Or.inl ⟨hcell', 0, .refl _⟩
      · rw [bracketTarget, if_neg hvalue']
        exact ih _ (Tape.room_lt hnext) hcell' hvalue' rfl
    · -- there is no cell for the `]` to look at
      have hscan := Tape.scan_of_edge hlt hnext
      have hstop := step_of_offTape io hsegment.tail.tail.head rfl
        (cell?_of_not_holds (s := State.move d ⟨start + 1, (t.cursor : Int), t, device⟩) hnext)
      refine Or.inr ⟨?_, 1, _, after_succ_of_stopped hstop (.offTape _) 0, rfl, ?_, rfl⟩
      · rw [hscan]
        exact ⟨⟨value, hvalue, hcell⟩, hnext⟩
      · exact hscan.symm

variable (io device) in
/-- **A scanning loop** ends where the scan does, on a zero cell, or it leaves the tape where the scan
stays on a nonzero cell. -/
theorem scan_cases (hsegment : Segment commands start [.beginLoop, .move d, .endLoop])
    (hloop : Loop commands start (start + 2)) {t : Tape} {value : UInt8}
    (hcell : t.cells[t.cursor]? = some value) (last : Nat) :
    ((t.scan d).cells[(t.scan d).cursor]? = some 0 ∧
      ∃ n, Reaches io commands (n + 1) ⟨start, t.cursor, ⟨t.cells, last⟩, device⟩
        ⟨start + 3, (t.scan d).cursor, t.scan d, device⟩) ∨
    (t.scan d).Clamped d ∧ ∃ n s,
      after io commands n ⟨start, t.cursor, ⟨t.cells, last⟩, device⟩ = .offTape s ∧
        s.position = start + 2 ∧ s.tape = t.scan d ∧ s.device = device := by
  have hbracket := hloop.step_beginLoop io rfl
    (cell?_natCast (t := ⟨t.cells, last⟩) hcell device)
  by_cases hvalue : value = 0
  · subst hvalue
    rw [bracketTarget, if_pos rfl] at hbracket
    rw [Tape.scan_of_zero hcell]
    exact Or.inl ⟨hcell, 0, .one hbracket⟩
  · rw [bracketTarget, if_neg hvalue] at hbracket
    rcases scan_rounds io device hsegment hloop hcell hvalue with
      ⟨hzero, n, hreaches⟩ | ⟨hclamped, n, s, hafter, hrest⟩
    · exact Or.inl ⟨hzero, n, .head hbracket hreaches⟩
    · exact Or.inr ⟨hclamped, n + 1, s, (after_succ_of_next hbracket n).trans hafter, hrest⟩

end Scanning

end Brainfuck.Plain
