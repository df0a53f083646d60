import Brainfuck.Proofs.Targets
import Brainfuck.Tape

/-!
# What happens to the cells

Every change a program makes to the cells is told as a gain: `raise gain cells` adds `gain i` to the
cell at `i`. Gains of several changes add up (`raise_raise`), so it does not matter whether they are
made at once or in many rounds. Storing a value, adding to one cell and spreading a value over
targets are all gains (`setIfInBounds_eq_raise`, `modify_eq_raise`, `Tape.spread_of_holds`).

A scan is told cell by cell: it stays where it is on a zero cell and at the edge, and otherwise is
the scan from the next cell (`Tape.scan_of_zero`, `Tape.scan_of_edge`, `Tape.scan_of_next`).
-/

namespace Brainfuck

/-- The cells, with `gain i` added to the one at `i` modulo 256. -/
def raise (gain : Nat → UInt8) (cells : Array UInt8) : Array UInt8 :=
  cells.mapIdx fun index value => value + gain index

/-- A gain in one cell only. -/
def gainAt (index : Nat) (amount : UInt8) (i : Nat) : UInt8 := if i = index then amount else 0

/-- What the targets add to each cell, counted from the cell at `base`. -/
def gainOf (base : Nat) (targets : List Target) (i : Nat) : UInt8 :=
  UInt8.ofNat (tally targets ((i : Int) - base))

section Gains

variable {gain gain' : Nat → UInt8} {cells : Array UInt8}

@[simp] theorem size_raise : (raise gain cells).size = cells.size := Array.size_mapIdx

theorem getElem?_raise (i : Nat) : (raise gain cells)[i]? = cells[i]?.map (· + gain i) :=
  Array.getElem?_mapIdx

theorem raise_raise : raise gain' (raise gain cells) = raise (fun i => gain i + gain' i) cells := by
  apply Array.ext_getElem?
  intro i
  rw [getElem?_raise, getElem?_raise, getElem?_raise, Option.map_map]
  congr 1
  funext value
  exact UInt8.add_assoc value (gain i) (gain' i)

theorem raise_congr (h : ∀ i, gain i = gain' i) : raise gain cells = raise gain' cells := by
  rw [show gain = gain' from funext h]

/-- Nothing is gained. -/
theorem raise_of_zero (h : ∀ i, gain i = 0) : raise gain cells = cells := by
  apply Array.ext_getElem?
  intro i
  rw [getElem?_raise, h i]
  cases cells[i]? with
  | none => rfl
  | some value => exact congrArg some (UInt8.add_zero value)

theorem setIfInBounds_eq_raise {index : Nat} {value : UInt8} (h : cells[index]? = some value)
    (value' : UInt8) :
    cells.setIfInBounds index value' = raise (gainAt index (value' - value)) cells := by
  obtain ⟨hlt, -⟩ := Array.getElem?_eq_some_iff.mp h
  apply Array.ext_getElem?
  intro i
  rw [Array.getElem?_setIfInBounds, getElem?_raise, gainAt]
  by_cases hi : index = i
  · subst hi
    rw [if_pos rfl, if_pos rfl, if_pos hlt, h, Option.map_some]
    congr 1
    grind
  · rw [if_neg hi, if_neg (Ne.symm hi)]
    cases cells[i]? with
    | none => rfl
    | some other => exact congrArg some (UInt8.add_zero other).symm

theorem modify_eq_raise (index : Nat) (amount : UInt8) :
    cells.modify index (· + amount) = raise (gainAt index amount) cells := by
  apply Array.ext_getElem?
  intro i
  rw [Array.getElem?_modify, getElem?_raise, gainAt]
  by_cases hi : index = i
  · rw [if_pos hi, if_pos hi.symm]
  · rw [if_neg hi, if_neg (Ne.symm hi)]
    cases cells[i]? with
    | none => rfl
    | some other => exact congrArg some (UInt8.add_zero other).symm

theorem gainAt_self (index : Nat) (amount : UInt8) : gainAt index amount index = amount :=
  if_pos rfl

theorem mul_gainAt (value amount : UInt8) (index i : Nat) :
    value * gainAt index amount i = gainAt index (value * amount) i := by
  unfold gainAt
  by_cases hi : i = index
  · rw [if_pos hi, if_pos hi]
  · rw [if_neg hi, if_neg hi]
    exact UInt8.mul_zero

/-- Only the sums of the targets matter. -/
theorem gainOf_congr {targets targets' : List Target} (base : Nat)
    (h : ∀ offset, tally targets offset = tally targets' offset) :
    gainOf base targets = gainOf base targets' := by
  funext i
  rw [gainOf, gainOf, h]

theorem gainOf_cons {base : Nat} {offset : Int} (h : 0 ≤ base + offset) (factor : Nat)
    (targets : List Target) (i : Nat) :
    gainOf base (⟨offset, factor⟩ :: targets) i =
      gainAt (base + offset).toNat (.ofNat factor) i + gainOf base targets i := by
  rw [gainOf, gainOf, gainAt, tally_cons, UInt8.ofNat_add]
  congr 1
  by_cases hi : i = (base + offset).toNat
  · have hoffset : offset = (i : Int) - base := by omega
    rw [if_pos hi, if_pos hoffset]
  · have hoffset : offset ≠ (i : Int) - base := by omega
    rw [if_neg hi, if_neg hoffset]
    rfl

/-- A cell that takes no part in a gain can be cleared along with it. -/
theorem setIfInBounds_raise {index : Nat} {value : UInt8} (h : cells[index]? = some value)
    (hgain : gain index = 0) :
    (raise gain cells).setIfInBounds index 0 =
      raise (fun i => gainAt index (-value) i + gain i) cells := by
  have hvalue : (raise gain cells)[index]? = some value := by
    rw [getElem?_raise, h, hgain, Option.map_some, UInt8.add_zero]
  rw [setIfInBounds_eq_raise hvalue, raise_raise, UInt8.zero_sub]
  apply raise_congr
  intro i
  exact UInt8.add_comm _ _

end Gains

namespace Tape

/-- There is a cell at the position. -/
def Holds (t : Tape) (position : Int) : Prop := 0 ≤ position ∧ position < t.size

/-- The position `offset` cells from the cursor fits into a word. -/
def InWord (t : Tape) (offset : Int) : Prop :=
  leastPosition ≤ t.cursor + offset ∧ t.cursor + offset ≤ greatestPosition

theorem holds_natCast {cells : Array UInt8} {k : Nat} (h : k < cells.size) (cursor : Nat) :
    (Tape.mk cells cursor).Holds (k : Int) :=
  ⟨Int.natCast_nonneg k, Int.ofNat_lt.mpr h⟩

/-- Where there are cells depends neither on what is in them nor on the cursor. -/
theorem holds_congr {cells cells' : Array UInt8} (h : cells.size = cells'.size)
    {cursor cursor' : Nat} {position : Int} :
    (Tape.mk cells cursor).Holds position ↔ (Tape.mk cells' cursor').Holds position := by
  unfold Holds size
  rw [h]

theorem holds_raise_iff {gain : Nat → UInt8} {cells : Array UInt8} {cursor cursor' : Nat}
    {position : Int} :
    (Tape.mk (raise gain cells) cursor).Holds position ↔ (Tape.mk cells cursor').Holds position :=
  holds_congr size_raise

section Positions

variable {t : Tape} {offset : Int}

theorem position?_of_holds (hword : t.InWord offset) (h : t.Holds (t.cursor + offset)) :
    t.position? offset = .ok (t.cursor + offset).toNat := by
  obtain ⟨hleast, hgreatest⟩ := hword
  obtain ⟨hnonneg, hlt⟩ := h
  refine (position?_eq_ok_iff hleast hgreatest).mpr ⟨?_, ?_⟩ <;> omega

theorem position?_of_not_holds (hword : t.InWord offset) (h : ¬t.Holds (t.cursor + offset)) :
    t.position? offset = .error (.reported ⟨t.cursor + offset, t.size⟩) := by
  obtain ⟨hleast, hgreatest⟩ := hword
  unfold Holds at h
  unfold position?
  dsimp only
  rw [if_neg (by omega), if_neg h]

theorem moveBy_of_holds (hword : t.InWord offset) (h : t.Holds (t.cursor + offset)) :
    t.moveBy offset = .ok { t with cursor := (t.cursor + offset).toNat } := by
  rw [moveBy, position?_of_holds hword h]

theorem moveBy_of_not_holds (hword : t.InWord offset) (h : ¬t.Holds (t.cursor + offset)) :
    t.moveBy offset = .error (.reported ⟨t.cursor + offset, t.size⟩) := by
  rw [moveBy, position?_of_not_holds hword h]

end Positions

/-! ## Changing one cell -/

/-- Changing a cell puts another value in its place. -/
theorem modify_eq_setIfInBounds {cells : Array UInt8} {index : Nat} {value : UInt8}
    (h : cells[index]? = some value) (f : UInt8 → UInt8) :
    cells.modify index f = cells.setIfInBounds index (f value) := by
  obtain ⟨hlt, -⟩ := Array.getElem?_eq_some_iff.mp h
  apply Array.ext_getElem?
  intro i
  rw [Array.getElem?_modify, Array.getElem?_setIfInBounds]
  by_cases hi : index = i
  · subst hi
    rw [if_pos rfl, if_pos rfl, if_pos hlt, h, Option.map_some]
  · rw [if_neg hi, if_neg hi]

/-! ## Spreading -/

/-- Targets that are on the tape are spread to first, and what follows goes on from there. -/
theorem spread_append (value : UInt8) {front : List Target} {cells : Array UInt8} {base : Nat}
    (hword : ∀ t ∈ front, (Tape.mk cells base).InWord t.offset)
    (h : ∀ t ∈ front, (Tape.mk cells base).Holds (base + t.offset)) (behind : List Target) :
    spread value (front ++ behind) ⟨cells, base⟩ =
      spread value behind ⟨raise (fun i => value * gainOf base front i) cells, base⟩ := by
  induction front generalizing cells with
  | nil =>
    rw [raise_of_zero, List.nil_append]
    intro i
    exact UInt8.mul_zero
  | cons target front ih =>
    obtain ⟨offset, factor⟩ := target
    have hfirst := position?_of_holds (hword _ List.mem_cons_self) (h _ List.mem_cons_self)
    have hnonneg := (h _ List.mem_cons_self).1
    rw [List.cons_append, spread, hfirst]
    dsimp only at hnonneg ⊢
    rw [modify_eq_raise]
    -- the other targets are where they were, since no cell has come or gone
    have hrest : spread value (front ++ behind)
        ⟨raise (gainAt (base + offset).toNat (value * .ofNat factor)) cells, base⟩ = _ :=
      ih (fun t ht => hword t (List.mem_cons_of_mem _ ht)) fun t ht =>
        holds_raise_iff.mpr (h t (List.mem_cons_of_mem _ ht))
    rw [hrest, raise_raise]
    congr 2
    apply raise_congr
    intro i
    rw [gainOf_cons hnonneg, UInt8.mul_add, mul_gainAt]

/-- **Spreading is a gain** if all targets are on the tape. -/
theorem spread_of_holds {value : UInt8} {targets : List Target} {cells : Array UInt8} {base : Nat}
    (hword : ∀ t ∈ targets, (Tape.mk cells base).InWord t.offset)
    (h : ∀ t ∈ targets, (Tape.mk cells base).Holds (base + t.offset)) :
    spread value targets ⟨cells, base⟩ =
      (.ok (), ⟨raise (fun i => value * gainOf base targets i) cells, base⟩) := by
  have hall := spread_append value hword h []
  rwa [List.append_nil] at hall

theorem exists_first_not {α : Type} {holds : α → Prop} {row : List α} (h : ∃ x ∈ row, ¬holds x) :
    ∃ front x behind, row = front ++ x :: behind ∧ (∀ y ∈ front, holds y) ∧ ¬holds x := by
  induction row with
  | nil =>
    obtain ⟨x, hx, -⟩ := h
    cases hx
  | cons x row ih =>
    by_cases hx : holds x
    · obtain ⟨y, hy, hnot⟩ := h
      -- it is not the first item that fails
      have hy : y ∈ row := by
        rcases List.mem_cons.mp hy with rfl | hy
        · exact absurd hx hnot
        · exact hy
      obtain ⟨front, z, behind, rfl, hfront, hz⟩ := ih ⟨y, hy, hnot⟩
      exact ⟨x :: front, z, behind, rfl, List.forall_mem_cons.mpr ⟨hx, hfront⟩, hz⟩
    · exact ⟨[], x, row, rfl, fun y hy => absurd hy List.not_mem_nil, hx⟩

/-- **Spreading is refused** at the first target that is not on the tape. The targets in front of it
have been spread to. -/
theorem spread_of_not_holds (value : UInt8) {targets : List Target} {cells : Array UInt8}
    {base : Nat} (hword : ∀ t ∈ targets, (Tape.mk cells base).InWord t.offset)
    (h : ∃ t ∈ targets, ¬(Tape.mk cells base).Holds (base + t.offset)) :
    ∃ front missing behind, targets = front ++ missing :: behind ∧
      (∀ t ∈ front, (Tape.mk cells base).Holds (base + t.offset)) ∧
      ¬(Tape.mk cells base).Holds (base + missing.offset) ∧
      spread value targets ⟨cells, base⟩ =
        (.error (.reported ⟨base + missing.offset, cells.size⟩),
          ⟨raise (fun i => value * gainOf base front i) cells, base⟩) := by
  obtain ⟨front, missing, behind, rfl, hfront, hnot⟩ := exists_first_not h
  refine ⟨front, missing, behind, rfl, hfront, hnot, ?_⟩
  rw [spread_append value (fun t ht => hword t (List.mem_append_left _ ht)) hfront]
  have hword : (Tape.mk (raise (fun i => value * gainOf base front i) cells) base).InWord
      missing.offset := hword missing (List.mem_append_right _ List.mem_cons_self)
  obtain ⟨offset, factor⟩ := missing
  rw [spread, position?_of_not_holds hword fun hholds => hnot (holds_raise_iff.mp hholds)]
  have hsize : (Tape.mk (raise (fun i => value * gainOf base front i) cells) base).size =
      cells.size := size_raise
  rw [hsize]

/-! ## Reading -/

/-- What is left of the tape when a byte has been read, or none. -/
def receive (byte : Option UInt8) (t : Tape) : Tape :=
  match byte with
  | none => t
  | some value => if value = 0 then t else t.store value

@[simp] theorem size_receive (byte : Option UInt8) (t : Tape) : (t.receive byte).size = t.size := by
  unfold receive
  split
  · rfl
  · split
    · rfl
    · exact size_store _ t

@[simp] theorem cursor_receive (byte : Option UInt8) (t : Tape) :
    (t.receive byte).cursor = t.cursor := by
  unfold receive
  split
  · rfl
  · split <;> rfl

/-! ## Scans, cell by cell -/

section Scans

variable {t : Tape} {d : Direction}

theorem scan_of_zero (h : t.cells[t.cursor]? = some 0) : t.scan d = t := by
  obtain ⟨cells, cursor⟩ := t
  have hzero : cells.getD cursor 0 = 0 := by
    rw [Array.getD_eq_getD_getElem?, h]
    rfl
  cases d with
  | left =>
    show Tape.mk cells (leftStop cells cursor) = _
    cases cursor with
    | zero => rfl
    | succ index => rw [leftStop, if_pos hzero]
  | right =>
    show Tape.mk cells (rightStop cells cursor) = _
    rw [rightStop, if_pos hzero, ite_self]

/-- There is no further cell that way. -/
theorem scan_of_edge (h : t.cursor < t.size) (hedge : ¬t.Holds (t.cursor + d.unit)) :
    t.scan d = t := by
  obtain ⟨cells, cursor⟩ := t
  unfold Holds at hedge
  have h : cursor < cells.size := h
  change ¬((0 : Int) ≤ cursor + d.unit ∧ (cursor : Int) + d.unit < cells.size) at hedge
  cases d with
  | left =>
    have hcursor : cursor = 0 := by
      simp only [Direction.unit] at hedge
      omega
    subst hcursor
    rfl
  | right =>
    show Tape.mk cells (rightStop cells cursor) = _
    have hlast : ¬cursor + 1 < cells.size := by
      simp only [Direction.unit] at hedge
      omega
    rw [rightStop, if_neg hlast]

theorem scan_of_next {value : UInt8} (h : t.cells[t.cursor]? = some value) (hvalue : value ≠ 0)
    (hnext : t.Holds (t.cursor + d.unit)) :
    t.scan d = ({ t with cursor := (t.cursor + d.unit).toNat } : Tape).scan d := by
  obtain ⟨cells, cursor⟩ := t
  have hnonzero : cells.getD cursor 0 ≠ 0 := by
    rw [Array.getD_eq_getD_getElem?, h]
    exact hvalue
  change (0 : Int) ≤ cursor + d.unit ∧ (cursor : Int) + d.unit < cells.size at hnext
  cases d with
  | left =>
    cases cursor with
    -- there is no cell to the left of the first
    | zero => exact absurd hnext.1 (by decide)
    | succ index =>
      show Tape.mk cells (leftStop cells (index + 1)) = Tape.mk cells (leftStop cells _)
      rw [leftStop, if_neg hnonzero]
      congr 2
      simp only [Direction.unit]
      omega
  | right =>
    show Tape.mk cells (rightStop cells cursor) = Tape.mk cells (rightStop cells _)
    have hinside : cursor + 1 < cells.size := by
      simp only [Direction.unit] at hnext
      omega
    rw [rightStop, if_pos hinside, if_neg hnonzero]
    rfl

/-- A scan leaves the cells as they are. -/
theorem cells_scan (t : Tape) (d : Direction) : (t.scan d).cells = t.cells := by
  cases d <;> rfl

theorem scan_cursor_lt (h : t.cursor < t.size) : (t.scan d).cursor < (t.scan d).size := by
  cases d with
  | left => exact Nat.lt_of_le_of_lt (leftStop_le t.cells t.cursor) h
  | right => exact rightStop_lt_size h

end Scans

/-- The cursor is on a nonzero cell, and there is no further cell that way. -/
structure Clamped (t : Tape) (d : Direction) : Prop where
  nonzero : ∃ value, value ≠ 0 ∧ t.cells[t.cursor]? = some value
  edge : ¬t.Holds (t.cursor + d.unit)

/-- How many cells there are from the cursor on that way. -/
def room (d : Direction) (t : Tape) : Nat :=
  match d with
  | .left => t.cursor
  | .right => t.size - t.cursor

theorem room_lt {t : Tape} {d : Direction} (h : t.Holds (t.cursor + d.unit)) :
    room d { t with cursor := (t.cursor + d.unit).toNat } < room d t := by
  obtain ⟨hnonneg, hlt⟩ := h
  cases d with
  | left =>
    show (t.cursor + Direction.left.unit : Int).toNat < t.cursor
    simp only [Direction.unit] at hnonneg ⊢
    omega
  | right =>
    show t.size - (t.cursor + Direction.right.unit : Int).toNat < t.size - t.cursor
    simp only [Direction.unit] at hlt ⊢
    omega

/-- To show something of every cursor on a tape from which one scans, it is enough to show it where
a scan ends, and to go back from each cell to the one before. -/
theorem scan_induction {d : Direction} {motive : Tape → Prop}
    (zero : ∀ t : Tape, t.cells[t.cursor]? = some 0 → motive t)
    (edge : ∀ (t : Tape) (value : UInt8), t.cells[t.cursor]? = some value → value ≠ 0 →
      ¬t.Holds (t.cursor + d.unit) → motive t)
    (next : ∀ (t : Tape) (value : UInt8), t.cells[t.cursor]? = some value → value ≠ 0 →
      t.Holds (t.cursor + d.unit) → motive { t with cursor := (t.cursor + d.unit).toNat } →
      motive t)
    {t : Tape} (h : t.cursor < t.size) : motive t := by
  -- the measure is how many cells there are that way
  induction hroom : room d t using Nat.strongRecOn generalizing t with
  | ind n ih =>
    subst hroom
    have hcell : t.cells[t.cursor]? = some t.cells[t.cursor] := Array.getElem?_eq_getElem h
    by_cases hzero : t.cells[t.cursor] = 0
    · exact zero t (hcell.trans (congrArg some hzero))
    · by_cases hnext : t.Holds (t.cursor + d.unit)
      · refine next t _ hcell hzero hnext (ih _ (room_lt hnext) ?_ rfl)
        obtain ⟨hnonneg, hlt⟩ := hnext
        show (t.cursor + d.unit : Int).toNat < t.size
        omega
      · exact edge t _ hcell hzero hnext

end Tape

end Brainfuck
