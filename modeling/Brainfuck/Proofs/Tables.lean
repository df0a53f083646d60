import Brainfuck.Proofs.Displacements
import Brainfuck.Tape.Table

/-!
# A tape is a table

A row of cells, and a cursor that five operations use without a look at where it is, do the same as a
table, which looks for an index each time (`Tape.Table`). The table describes the tape at the start,
and no operation changes that, nor do the answers differ (`Table.Describes.perform`). So it is with
every sequence of operations (`Table.Describes.after`), as long as no position on the way is too great
for a word.

Main result: `Tape.after_blank_described`, which also tells what each operation does to the cells by
itself (`Tape.Regular`).
-/

namespace Brainfuck.Tape

/-- The position that the operation looks at fits into a word. -/
def Operation.InWord (operation : Operation) (t : Tape) : Prop :=
  ∀ offset ∈ operation.displacement?, t.InWord offset

/-- The positions that the operations look at, one operation after the other, fit into words. -/
def AllInWord : List Operation → Tape → Prop
  | [], _ => True
  | operation :: rest, t => operation.InWord t ∧ AllInWord rest (t.perform operation).2

instance (t : Tape) (offset : Int) : Decidable (t.InWord offset) :=
  inferInstanceAs (Decidable (_ ∧ _))

instance (operation : Operation) (t : Tape) : Decidable (operation.InWord t) :=
  inferInstanceAs (Decidable (∀ offset ∈ operation.displacement?, t.InWord offset))

instance AllInWord.decidable : (operations : List Operation) → (t : Tape) →
    Decidable (AllInWord operations t)
  | [], _ => isTrue trivial
  | operation :: rest, t =>
    have := AllInWord.decidable rest (t.perform operation).2
    inferInstanceAs (Decidable (operation.InWord t ∧ _))

/-- How far from the cursor the operation writes, and the number it puts in place of another. -/
def Operation.write? : Operation → Option (Int × (Nat → Nat))
  | set value => some (0, fun _ => value.toNat)
  | add amount => some (0, fun old => old + amount.toNat)
  | sub amount => some (0, fun old => old + (256 - amount.toNat))
  | putAt offset value => some (offset, fun _ => value.toNat)
  | moveBy _ | get | scan _ | cellAt _ => none

variable {size : Nat} {t : Tape} {m : Table size} {offset : Int} {operation : Operation}

namespace Table

/-- The table says what the tape holds, and where its cursor is. -/
structure Describes (m : Table size) (t : Tape) : Prop where
  placed : t.Placed size
  cursor_eq : m.cursor = t.cursor
  cell_eq : ∀ index : Fin size, t.cells[(index : Nat)]? = some (m.byteAt index)

/-- The table and the tape have come to the same answer, and the one still describes the other. -/
structure Agrees (r : Except (Failure OffTape) Answer × Table size)
    (r' : Except (Failure OffTape) Answer × Tape) : Prop where
  answer_eq : r'.1 = r.1
  describes : r.2.Describes r'.2

/-- A byte is a number below 256. -/
theorem ofNat_mod (value : UInt8) : value = UInt8.ofNat (value.toNat % 256) := by
  rw [Nat.mod_eq_of_lt value.toNat_lt, UInt8.ofNat_toNat]

theorem blank_describes (size : Nat) : (blank size).Describes (.blank size) := by
  refine ⟨blank_placed size, rfl, ?_⟩
  intro index
  show (Array.replicate size (0 : UInt8))[(index : Nat)]? = some 0
  rw [Array.getElem?_replicate, if_pos index.isLt]

namespace Describes

variable (h : m.Describes t)

include h

/-! ## Indices -/

/-- Where there is a cell, there is an index. -/
theorem exists_index (hholds : t.Holds (t.cursor + offset)) :
    ∃ index : Fin size, m.index? offset = some index ∧ (index : Int) = t.cursor + offset := by
  have hrange : 0 ≤ (m.cursor : Int) + offset ∧ (m.cursor : Int) + offset < size := by
    rw [h.cursor_eq, ← h.placed.size_eq]
    exact hholds
  refine ⟨_, dif_pos hrange, ?_⟩
  rw [← h.cursor_eq]
  exact Int.toNat_of_nonneg hrange.1

theorem index?_eq_none (hnot : ¬t.Holds (t.cursor + offset)) : m.index? offset = none := by
  apply dif_neg
  rw [h.cursor_eq, ← h.placed.size_eq]
  exact hnot

/-- The position of an operation, in the table and on the tape. -/
theorem position?_eq (hword : t.InWord offset) (hholds : t.Holds (t.cursor + offset)) :
    ∃ index : Fin size, m.index? offset = some index ∧ t.position? offset = .ok index := by
  obtain ⟨index, hindex, heq⟩ := h.exists_index hholds
  refine ⟨index, hindex, ?_⟩
  rw [position?_of_holds hword hholds, ← heq, Int.toNat_natCast]

/-- The cursor is at an index if there is one, and the byte there is in the cell under it. -/
theorem here_cases :
    (∃ index : Fin size, m.index? 0 = some index ∧ (index : Nat) = t.cursor ∧
      t.cells[t.cursor]? = some (m.byteAt index)) ∨
    size = 0 ∧ m.index? 0 = none ∧ t.cells[t.cursor]? = none := by
  have hsize := h.placed.size_eq
  rcases Nat.eq_zero_or_pos size with hzero | hpos
  · have hout : t.cells.size ≤ t.cursor := by
      show t.size ≤ _
      omega
    exact .inr ⟨hzero, h.index?_eq_none (by unfold Holds; omega), Array.getElem?_eq_none hout⟩
  · have hlt := h.placed.cursor_lt hpos
    have hholds : t.Holds (t.cursor + 0) := by
      unfold Holds
      omega
    obtain ⟨index, hindex, heq⟩ := h.exists_index hholds
    have heq : (index : Nat) = t.cursor := by omega
    exact .inl ⟨index, hindex, heq, heq ▸ h.cell_eq index⟩

/-! ## Changes -/

theorem moveTo {index : Nat} (hindex : index ≤ size - 1) :
    (m.moveTo index).Describes { t with cursor := index } :=
  ⟨⟨h.placed.size_eq, hindex⟩, rfl, h.cell_eq⟩

/-- A number is put where a cell is changed. -/
theorem put {index : Fin size} {number : Nat} {f : UInt8 → UInt8}
    (hf : f (m.byteAt index) = UInt8.ofNat (number % 256)) :
    (m.put index number).Describes { t with cells := t.cells.modify index f } := by
  refine ⟨h.placed.congr Array.size_modify rfl, h.cursor_eq, ?_⟩
  intro i
  show (t.cells.modify index f)[(i : Nat)]? =
    some (if i = index then UInt8.ofNat (number % 256) else m.byteAt i)
  rw [Array.getElem?_modify]
  by_cases hi : i = index
  · rw [hi, if_pos rfl, if_pos rfl, h.cell_eq, Option.map_some, hf]
  · rw [if_neg hi, if_neg fun heq => hi (Fin.ext heq.symm), h.cell_eq]

/-! ## Scans -/

/-- Zero cells are zeros of the table. -/
theorem isZero_eq {index : Nat} (hlt : index < size) :
    m.isZero index = decide (t.cells.getD index 0 = 0) := by
  have hcell := h.cell_eq ⟨index, hlt⟩
  rw [isZero, dif_pos hlt, Array.getD_eq_getD_getElem?, hcell]
  rfl

theorem leftStop_eq {index : Nat} (hindex : index ≤ size - 1) (default : Nat) :
    leftStop t.cells index = firstOrLast m.isZero (List.range (index + 1)).reverse default := by
  induction index generalizing default with
  | zero =>
    show 0 = firstOrLast m.isZero [0] default
    rw [firstOrLast_cons]
    split <;> rfl
  | succ index ih =>
    have hlt : index + 1 < size := by omega
    have hzero := h.isZero_eq hlt
    rw [List.range_succ, List.reverse_append, List.reverse_singleton, List.singleton_append,
      firstOrLast_cons, hzero, leftStop, ← ih (by omega)]
    by_cases hcell : t.cells.getD (index + 1) 0 = 0
    · rw [if_pos hcell, if_pos (decide_eq_true hcell)]
    · rw [if_neg hcell, if_neg (by simpa using hcell)]

theorem rightStop_eq {index : Nat} (hindex : index < size) (default : Nat) :
    rightStop t.cells index =
      firstOrLast m.isZero (List.range' index (size - index)) default := by
  have hsize : t.cells.size = size := h.placed.size_eq
  obtain ⟨more, hmore⟩ : ∃ more, size - index = more + 1 := ⟨size - index - 1, by omega⟩
  induction more generalizing index default with
  | zero =>
    have hlast : ¬index + 1 < t.cells.size := by omega
    rw [hmore, rightStop, if_neg hlast]
    show index = firstOrLast m.isZero [index] default
    rw [firstOrLast_cons]
    split <;> rfl
  | succ more ih =>
    have hnext : index + 1 < t.cells.size := by omega
    have hlt : index + 1 < size := hsize ▸ hnext
    have hless : size - (index + 1) = more + 1 := by omega
    have hrest := ih hlt index hless
    rw [hless] at hrest
    rw [hmore, List.range'_succ, firstOrLast_cons, h.isZero_eq hindex, rightStop, if_pos hnext,
      ← hrest]
    by_cases hcell : t.cells.getD index 0 = 0
    · rw [if_pos hcell, if_pos (decide_eq_true hcell)]
    · rw [if_neg hcell, if_neg (by simpa using hcell)]

/-- **A scan ends where the table says**, be it on a zero or at the edge. -/
theorem stop_eq (d : Direction) : m.stop d = (t.scan d).cursor := by
  have hcursor := h.placed.cursor_le
  unfold Table.stop
  cases d with
  | left =>
    show firstOrLast m.isZero (List.range (m.cursor + 1)).reverse m.cursor = _
    rw [h.cursor_eq]
    exact (h.leftStop_eq hcursor t.cursor).symm
  | right =>
    show firstOrLast m.isZero (List.range' m.cursor (size - m.cursor)) m.cursor = _
    rw [h.cursor_eq]
    rcases Nat.eq_zero_or_pos size with hsize | hpos
    · have hplaced : t.Placed t.size := h.placed.size_eq ▸ h.placed
      have hnone : size - t.cursor = 0 := by omega
      rw [scan_of_no_cells hplaced (h.placed.size_eq.trans hsize), hnone]
      rfl
    · exact (h.rightStop_eq (h.placed.cursor_lt hpos) t.cursor).symm

theorem scan (d : Direction) : (m.moveTo (m.stop d)).Describes (t.scan d) := by
  refine ⟨h.placed.scan d, h.stop_eq d, ?_⟩
  rw [cells_scan]
  exact h.cell_eq

/-! ## Operations -/

/-- Both refuse to look where there is nothing. -/
theorem perform_of_not_holds (hoperation : operation.displacement? = some offset)
    (hnot : ¬t.Holds (t.cursor + offset)) :
    m.perform operation = (.error (.reported ⟨t.cursor + offset, size⟩), m) := by
  have hnone := h.index?_eq_none hnot
  cases operation with
  | get | set | add | sub | scan => cases hoperation
  | moveBy | cellAt | putAt =>
    cases hoperation
    rw [← h.cursor_eq]
    simp only [Table.perform, there, hnone, attempt]

/-- Both find the byte at the cursor. -/
theorem get : Agrees (m.perform .get) (t.perform .get) := by
  rcases h.here_cases with ⟨index, hindex, -, hcell⟩ | ⟨-, hnone, hout⟩
  · have hget : t.get = .ok (m.byteAt index) := get_eq_ok_iff.mpr hcell
    simp only [Table.perform, here, hindex, attempt, Tape.perform, hget]
    exact ⟨rfl, h⟩
  · have hget : t.get = .error .indexOutOfRange := by rw [Tape.get, cell?, hout]
    simp only [Table.perform, here, hnone, attempt, Tape.perform, hget]
    exact ⟨rfl, h⟩

/-- Both change the byte at the cursor in the same way. -/
theorem rewrite (f : UInt8 → UInt8) (number : UInt8 → Nat)
    (hf : ∀ value, f value = UInt8.ofNat (number value % 256)) :
    Agrees (m.here fun index => (.done, m.put index (number (m.byteAt index))))
      (changed t ((t.modify f).mapError .crashed)) := by
  rcases h.here_cases with ⟨index, hindex, heq, hcell⟩ | ⟨-, hnone, hout⟩
  · have hmodify : t.modify f = .ok { t with cells := t.cells.modify index f } := by
      rw [Tape.modify, get_eq_ok_iff.mpr hcell, heq, modify_eq_setIfInBounds hcell]
      rfl
    rw [here, hindex, hmodify]
    exact ⟨rfl, h.put (hf _)⟩
  · have hget : t.get = .error .indexOutOfRange := by rw [Tape.get, cell?, hout]
    rw [here, hnone, Tape.modify, hget]
    exact ⟨rfl, h⟩

/-- An operation that looks elsewhere finds something on both sides or on neither. So all that is left
to compare is what it does with what it has found. -/
theorem perform_elsewhere (hoperation : operation.displacement? = some offset)
    (hword : operation.InWord t)
    (hfound : ∀ index : Fin size, m.index? offset = some index → t.position? offset = .ok index →
      Agrees (m.perform operation) (t.perform operation)) :
    Agrees (m.perform operation) (t.perform operation) := by
  have hword := hword offset hoperation
  by_cases hholds : t.Holds (t.cursor + offset)
  · obtain ⟨index, hindex, hposition⟩ := h.position?_eq hword hholds
    exact hfound index hindex hposition
  · have hmissing := position?_of_not_holds hword hholds
    rw [h.perform_of_not_holds hoperation hholds, perform_of_error hoperation hmissing,
      h.placed.size_eq]
    exact ⟨rfl, h⟩

/-- **An operation does the same to the table and to the tape**, and answers the same. -/
theorem perform (hword : operation.InWord t) :
    Agrees (m.perform operation) (t.perform operation) := by
  cases operation with
  | get => exact h.get
  | set value => exact h.rewrite (fun _ => value) (fun _ => value.toNat) fun _ => ofNat_mod value
  | add amount =>
    refine h.rewrite (· + amount) (fun old => old.toNat + amount.toNat) fun old => ?_
    rw [← UInt8.ofNat_toNat (x := old + amount), UInt8.toNat_add]
  | sub amount =>
    refine h.rewrite (· - amount) (fun old => old.toNat + (256 - amount.toNat)) fun old => ?_
    rw [← UInt8.ofNat_toNat (x := old - amount), UInt8.toNat_sub, Nat.add_comm]
  | scan d => exact ⟨rfl, h.scan d⟩
  | moveBy offset =>
    refine h.perform_elsewhere rfl hword fun index hindex hposition => ?_
    simp only [Table.perform, there, hindex, attempt, Tape.perform, moveBy, hposition, changed]
    exact ⟨rfl, h.moveTo (Nat.le_sub_one_of_lt index.isLt)⟩
  | cellAt offset =>
    refine h.perform_elsewhere rfl hword fun index hindex hposition => ?_
    have hcell := cellAt_of_ok hposition (h.cell_eq index)
    simp only [Table.perform, there, hindex, attempt, Tape.perform, hcell, found]
    exact ⟨rfl, h⟩
  | putAt offset value =>
    refine h.perform_elsewhere rfl hword fun index hindex hposition => ?_
    simp only [Table.perform, there, hindex, attempt, Tape.perform, putAt, modifyAt, hposition,
      changed]
    exact ⟨rfl, h.put (ofNat_mod value)⟩

/-- **The table goes on describing the tape**, whatever is done to both. -/
theorem after {operations : List Operation} (hwords : AllInWord operations t) :
    (m.after operations).Describes (t.after operations) ∧
      t.answers operations = m.answers operations := by
  induction operations generalizing t m with
  | nil => exact ⟨h, rfl⟩
  | cons operation rest ih =>
    obtain ⟨hword, hrest⟩ := hwords
    obtain ⟨hanswer, hdescribes⟩ := h.perform hword
    obtain ⟨hafter, hanswers⟩ := ih hdescribes hrest
    refine ⟨hafter, ?_⟩
    rw [Tape.answers, Table.answers, hanswer, hanswers]

end Describes

/-! ## What one operation does -/

theorem attempt_ok {failure : Failure OffTape} {act : Fin size → Answer × Table size}
    {index? : Option (Fin size)} {answer : Answer}
    (h : (m.attempt failure act index?).1 = .ok answer) :
    ∃ index, index? = some index ∧ (m.attempt failure act index?).2 = (act index).2 := by
  cases index? with
  | some index => exact ⟨index, rfl, rfl⟩
  | none => cases h

theorem index?_eq_some {index : Fin size} (h : m.index? offset = some index) :
    (index : Int) = m.cursor + offset := by
  unfold index? at h
  split at h
  next hrange =>
    cases h
    exact Int.toNat_of_nonneg hrange.1
  next => cases h

/-- An operation that writes puts one number into the table. -/
theorem perform_of_write {number : Nat → Nat} {answer : Answer}
    (hwrite : operation.write? = some (offset, number))
    (h : (m.perform operation).1 = .ok answer) :
    ∃ index : Fin size, (index : Int) = m.cursor + offset ∧
      (m.perform operation).2 = m.put index (number (m.byteAt index).toNat) := by
  cases operation with
  | moveBy | get | scan | cellAt => cases hwrite
  | set | add | sub | putAt =>
    cases hwrite
    obtain ⟨index, hindex, hchanged⟩ := attempt_ok h
    exact ⟨index, index?_eq_some hindex, hchanged⟩

end Table

/-- An operation that does not write leaves the cells as they are. -/
theorem cells_of_not_write (h : operation.write? = none) :
    (t.perform operation).2.cells = t.cells := by
  cases operation with
  | set | add | sub | putAt => cases h
  | scan d => exact cells_scan t d
  | get =>
    show (found t _).2.cells = _
    cases (t.get.mapError .crashed : Except (Failure OffTape) UInt8) <;> rfl
  | cellAt offset =>
    show (found t _).2.cells = _
    cases t.cellAt offset <;> rfl
  | moveBy offset =>
    show (changed t (t.moveBy offset)).2.cells = _
    cases hmove : t.moveBy offset with
    | ok t' => exact (moveBy_eq_ok hmove).2.2
    | error failure => rfl

/-- A tape of `size` cells, and what one operation can do to it. -/
structure Regular (size : Nat) (t : Tape) : Prop where
  size_eq : t.size = size
  cursor_eq_zero : size = 0 → t.cursor = 0
  cursor_lt : 0 < size → t.cursor < size
  /-- No operation uses a cell that is not on the tape. -/
  not_crashed : 0 < size → ∀ operation, operation.InWord t → ∀ crash,
    (t.perform operation).1 ≠ .error (.crashed crash)
  /-- A write changes the number in one cell, modulo 256, and nothing else. -/
  written : ∀ operation offset number answer, operation.write? = some (offset, number) →
    operation.InWord t → (t.perform operation).1 = .ok answer →
    (t.perform operation).2.cursor = t.cursor ∧
    ∀ index : Nat, (t.perform operation).2.cells[index]? =
      if (index : Int) = t.cursor + offset then
        t.cells[index]?.map fun old => UInt8.ofNat (number old.toNat % 256)
      else t.cells[index]?
  /-- All other operations change no cell. -/
  kept : ∀ operation, operation.write? = none → (t.perform operation).2.cells = t.cells
  /-- Where there is no cell, nothing is changed, and the position is reported. -/
  refused : ∀ operation offset, operation.displacement? = some offset → operation.InWord t →
    ¬t.Holds (t.cursor + offset) →
    t.perform operation = (.error (.reported ⟨t.cursor + offset, size⟩), t)

namespace Table.Describes

variable (h : m.Describes t)

include h

/-- What is under the cursor can be used, since there is a cell. -/
theorem not_crashed (hpos : 0 < size) (hword : operation.InWord t) (crash : Crash) :
    (t.perform operation).1 ≠ .error (.crashed crash) := by
  have hhere : ∀ act, (m.here act).1 ≠ .error (.crashed crash) := by
    intro act
    rcases h.here_cases with ⟨index, hindex, -⟩ | ⟨hzero, -⟩
    · rw [here, hindex]
      exact nofun
    · omega
  have hthere : ∀ offset act, (m.there offset act).1 ≠ .error (.crashed crash) := by
    intro offset act
    unfold there
    cases m.index? offset <;> exact nofun
  rw [(h.perform hword).answer_eq]
  cases operation with
  | get | set | add | sub => exact hhere _
  | moveBy | cellAt | putAt => exact hthere _ _
  | scan => exact nofun

theorem written {number : Nat → Nat} {answer : Answer}
    (hwrite : operation.write? = some (offset, number)) (hword : operation.InWord t)
    (hok : (t.perform operation).1 = .ok answer) :
    (t.perform operation).2.cursor = t.cursor ∧
    ∀ index : Nat, (t.perform operation).2.cells[index]? =
      if (index : Int) = t.cursor + offset then
        t.cells[index]?.map fun old => UInt8.ofNat (number old.toNat % 256)
      else t.cells[index]? := by
  obtain ⟨hanswer, hafter⟩ := h.perform hword
  obtain ⟨here, hhere, hput⟩ := perform_of_write hwrite (hanswer.symm.trans hok)
  rw [hput] at hafter
  rw [h.cursor_eq] at hhere
  refine ⟨hafter.cursor_eq.symm.trans h.cursor_eq, ?_⟩
  intro index
  by_cases hlt : index < size
  · have hcell : t.cells[index]? = some _ := h.cell_eq ⟨index, hlt⟩
    have hcell' : (t.perform operation).2.cells[index]? = some _ := hafter.cell_eq ⟨index, hlt⟩
    rw [hcell', hcell, Option.map_some, ← hhere]
    show some (if (⟨index, hlt⟩ : Fin size) = here then _ else _) = _
    by_cases heq : (⟨index, hlt⟩ : Fin size) = here
    · subst heq
      rw [if_pos rfl, if_pos rfl]
    · have hne : (index : Int) ≠ here := fun hindex => heq (Fin.ext (Int.ofNat_inj.mp hindex))
      rw [if_neg heq, if_neg hne]
  · -- behind the last cell there is nothing before, and nothing afterwards
    have hsize : t.cells.size ≤ index :=
      Nat.le_trans (Nat.le_of_eq h.placed.size_eq) (Nat.le_of_not_lt hlt)
    have hsize' : (t.perform operation).2.cells.size ≤ index :=
      Nat.le_trans (Nat.le_of_eq hafter.placed.size_eq) (Nat.le_of_not_lt hlt)
    rw [Array.getElem?_eq_none hsize, Array.getElem?_eq_none hsize', Option.map_none, ite_self]

theorem regular : t.Regular size where
  size_eq := h.placed.size_eq
  cursor_eq_zero := by
    rintro rfl
    exact Nat.le_zero.mp h.placed.cursor_le
  cursor_lt := h.placed.cursor_lt
  not_crashed := fun hpos _ hword => h.not_crashed hpos hword
  written := fun _ _ _ _ hwrite hword hok => h.written hwrite hword hok
  kept := fun _ hwrite => cells_of_not_write hwrite
  refused := by
    intro operation offset hoperation hword hnot
    have hmissing := position?_of_not_holds (hword offset hoperation) hnot
    rw [perform_of_error hoperation hmissing, h.placed.size_eq]

end Table.Describes

/-- **A tape keeps to its table.** Whatever is done to a tape of any size, as long as no position is
too great for a word, it keeps its number of cells, its cursor stays on them, no operation uses a cell
that is not there, and each writes to its own cell only (`Regular`). The cells and all answers are
those of the table. -/
theorem after_blank_described {size : Nat} {operations : List Operation}
    (hwords : AllInWord operations (blank size)) :
    ((blank size).after operations).Regular size ∧
    ((Table.blank size).after operations).Describes ((blank size).after operations) ∧
    (blank size).answers operations = (Table.blank size).answers operations := by
  obtain ⟨hdescribes, hanswers⟩ := (Table.blank_describes size).after hwords
  exact ⟨hdescribes.regular, hdescribes, hanswers⟩

/-- Bytes that wrap around both ways, a scan that stops at the last cell, and three operations that
are refused, on a tape of three cells. -/
theorem after_blank_described_wrapped :
    ∃ operations, operations = [.sub 1, .moveBy 1, .add 200, .add 100, .putAt (-2) 3, .putAt 1 5,
        .scan .right, .moveBy 1, .cellAt (-3)] ∧
      AllInWord operations (blank 3) ∧
      (blank 3).after operations = ⟨#[255, 44, 5], 2⟩ ∧
      Regular 3 ⟨#[255, 44, 5], 2⟩ ∧
      ((Table.blank 3).after operations).Describes ⟨#[255, 44, 5], 2⟩ ∧
      (blank 3).answers operations = [.ok .done, .ok .done, .ok .done, .ok .done,
        .error (.reported ⟨-1, 3⟩), .ok .done, .ok .done, .error (.reported ⟨3, 3⟩),
        .error (.reported ⟨-1, 3⟩)] := by
  have hwords : AllInWord [.sub 1, .moveBy 1, .add 200, .add 100, .putAt (-2) 3, .putAt 1 5,
      .scan .right, .moveBy 1, .cellAt (-3)] (blank 3) := by decide +kernel
  have hafter : (blank 3).after [.sub 1, .moveBy 1, .add 200, .add 100, .putAt (-2) 3, .putAt 1 5,
      .scan .right, .moveBy 1, .cellAt (-3)] = ⟨#[255, 44, 5], 2⟩ := by decide +kernel
  obtain ⟨hregular, hdescribes, hanswers⟩ := after_blank_described hwords
  rw [hafter] at hregular hdescribes
  exact ⟨_, rfl, hwords, hafter, hregular, hdescribes, hanswers.trans rfl⟩

end Brainfuck.Tape
