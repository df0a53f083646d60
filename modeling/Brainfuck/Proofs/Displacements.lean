import Brainfuck.Proofs.Placement
import Brainfuck.Tape.Words

/-!
# Where displacements lead

A move and a look at a cell elsewhere come to the position that is the sum of the cursor and an
offset. If there is a cell at it, they succeed. Otherwise they leave the tape alone, and what they
answer depends on the position only: it is reported if it fits into a word, and else the operation
crashes. No position is too small for a word, since the cursor is none of the negative numbers.

Main result: `Tape.displaced_exact`. There is a position too great for a word for every cursor but
the first one, so off-tape moves are not all reported (`Tape.displaced_unreported`).
-/

namespace Brainfuck

namespace Tape

variable {t : Tape} {offset : Int} {operation : Operation}

/-! ## Sums in words -/

/-- A sum that is a signed word and not negative is an unsigned word. -/
theorem advance?_of_nonneg {index : Nat} (hnonneg : 0 ≤ index + offset)
    (hgreatest : index + offset ≤ greatestPosition) :
    advance? index offset = some (index + offset).toNat := by
  have hfits : (index : Int) + offset ≤ Text.greatestWord := by
    unfold greatestPosition at hgreatest
    unfold Text.greatestWord
    omega
  rw [advance?, if_pos ⟨hnonneg, hfits⟩]

theorem advance?_of_neg {index : Nat} (h : index + offset < 0) : advance? index offset = none :=
  if_neg fun hsum => absurd hsum.1 (Int.not_le.mpr h)

theorem position?_of_not_inWord (h : ¬t.InWord offset) :
    t.position? offset = .error (.crashed .overflow) := by
  unfold InWord at h
  unfold position?
  rw [if_pos (by omega)]

theorem report_of_inWord (h : t.InWord offset) (size : Nat) :
    report t.cursor offset size = .ok ⟨t.cursor + offset, size⟩ := by
  rw [report, inPosition, if_pos (show _ ∧ _ from h)]
  rfl

theorem report_of_not_inWord (h : ¬t.InWord offset) (size : Nat) :
    report t.cursor offset size = .error .overflow := by
  rw [report, inPosition, if_neg (show ¬(_ ∧ _) from h)]
  rfl

/-- **Adding in words finds the same cell**, and makes the same report, wherever the cursor is. -/
theorem positionInWords?_eq (hcursor : (t.cursor : Int) ≤ greatestPosition) (offset : Int) :
    t.positionInWords? offset = t.position? offset := by
  rw [positionInWords?, Pass.signed_of_le hcursor]
  by_cases hword : t.InWord offset
  case neg =>
    rw [report_of_not_inWord hword, position?_of_not_inWord hword]
    rfl
  case pos =>
    rw [report_of_inWord hword]
    by_cases hholds : t.Holds (t.cursor + offset)
    · have hlt : decide ((t.cursor + offset).toNat < t.size) = true := by
        unfold Holds at hholds
        exact decide_eq_true (by omega)
      rw [position?_of_holds hword hholds, advance?_of_nonneg hholds.1 hword.2, Option.filter_some,
        hlt, if_pos rfl]
      rfl
    · have hnone : (advance? t.cursor offset).filter (· < t.size) = none := by
        unfold Holds at hholds
        by_cases hnonneg : 0 ≤ (t.cursor : Int) + offset
        · rw [advance?_of_nonneg hnonneg hword.2, Option.filter_some,
            decide_eq_false (by omega), if_neg Bool.false_ne_true]
        · rw [advance?_of_neg (Int.not_le.mp hnonneg), Option.filter_none]
      rw [position?_of_not_holds hword hholds, hnone]
      rfl

/-! ## What comes of an operation -/

/-- An operation that finds no cell answers why, and leaves the tape alone. -/
theorem perform_of_error {failure : Failure OffTape}
    (hoperation : operation.displacement? = some offset)
    (h : t.position? offset = .error failure) :
    t.perform operation = (.error failure, t) := by
  cases operation with
  | get | set | add | sub | scan => cases hoperation
  | moveBy =>
    cases hoperation
    rw [perform, moveBy, h]
    rfl
  | cellAt =>
    cases hoperation
    rw [perform, cellAt, h]
    rfl
  | putAt =>
    cases hoperation
    rw [perform, putAt, modifyAt, h]
    rfl

/-- What is found at a position is the cell there. -/
theorem cellAt_of_ok {index : Nat} {value : UInt8} (h : t.position? offset = .ok index)
    (hcell : t.cells[index]? = some value) : t.cellAt offset = .ok value := by
  rw [cellAt, h]
  simp only [bind, Except.bind, hcell]

/-- An operation that finds a cell succeeds. -/
theorem perform_of_ok {index : Nat} (hoperation : operation.displacement? = some offset)
    (h : t.position? offset = .ok index) :
    ∃ answer, (t.perform operation).1 = .ok answer := by
  cases operation with
  | get | set | add | sub | scan => cases hoperation
  | moveBy =>
    cases hoperation
    rw [perform, moveBy, h]
    exact ⟨.done, rfl⟩
  | cellAt =>
    cases hoperation
    have hcell : t.cells[index]? = some _ := Array.getElem?_eq_getElem (position?_eq_ok h).2
    rw [perform, cellAt_of_ok h hcell]
    exact ⟨.value _, rfl⟩
  | putAt =>
    cases hoperation
    rw [perform, putAt, modifyAt, h]
    exact ⟨.done, rfl⟩

/-- **An operation that goes to another cell succeeds exactly if there is one.** If there is none, it
leaves the tape alone, and reports the position unless that does not fit into a word: then it
crashes. The number of cells fits into a word, and so does the offset, of which only the lower bound
matters. -/
theorem displaced_exact {size : Nat} (hsize : (size : Int) ≤ greatestPosition)
    (operations : List Operation) (hoperation : operation.displacement? = some offset)
    (hleast : leastPosition ≤ offset) (ht : t = (blank size).after operations) :
    t.positionInWords? offset = t.position? offset ∧
    ((∃ answer, (t.perform operation).1 = .ok answer) ↔
      0 ≤ t.cursor + offset ∧ t.cursor + offset < size) ∧
    ((t.perform operation).1 = .error (.reported ⟨t.cursor + offset, size⟩) ↔
      ¬(0 ≤ t.cursor + offset ∧ t.cursor + offset < size) ∧
        t.cursor + offset ≤ greatestPosition) ∧
    ((t.perform operation).1 = .error (.crashed .overflow) ↔
      greatestPosition < t.cursor + offset) ∧
    ∀ failure, (t.perform operation).1 = .error failure → (t.perform operation).2 = t := by
  have hplaced : t.Placed size := ht ▸ after_placed (blank_placed size) operations
  obtain ⟨hsize', hcursor⟩ := hplaced
  refine ⟨positionInWords?_eq (by omega) offset, ?_⟩
  by_cases hword : t.InWord offset
  case neg =>
    have hover : greatestPosition < t.cursor + offset := by
      unfold InWord at hword
      omega
    rw [perform_of_error hoperation (position?_of_not_inWord hword)]
    refine ⟨iff_of_false nofun ?_, iff_of_false nofun ?_, iff_of_true rfl hover, fun _ _ => rfl⟩
    · omega
    · omega
  case pos =>
    have hle := hword.2
    by_cases hholds : t.Holds (t.cursor + offset)
    · obtain ⟨answer, hanswer⟩ := perform_of_ok hoperation (position?_of_holds hword hholds)
      have hfound : 0 ≤ (t.cursor : Int) + offset ∧ (t.cursor : Int) + offset < size :=
        hsize' ▸ hholds
      rw [hanswer]
      exact ⟨iff_of_true ⟨answer, rfl⟩ hfound, iff_of_false nofun fun h => h.1 hfound,
        iff_of_false nofun (by omega), fun _ => nofun⟩
    · have hmissing : ¬(0 ≤ (t.cursor : Int) + offset ∧ (t.cursor : Int) + offset < size) :=
        hsize' ▸ hholds
      rw [perform_of_error hoperation (position?_of_not_holds hword hholds), hsize']
      exact ⟨iff_of_false nofun hmissing, iff_of_true rfl ⟨hmissing, hle⟩,
        iff_of_false nofun (by omega), fun _ _ => rfl⟩

/-- A write in front of the first of three cells. -/
theorem displaced_exact_put :
    ((3 : Nat) : Int) ≤ greatestPosition ∧
      (Operation.putAt (-3) 5).displacement? = some (-3) ∧ leastPosition ≤ -3 ∧
      (⟨#[0, 0, 0], 2⟩ : Tape) = (blank 3).after [.moveBy 7, .moveBy 2] ∧
      (Tape.mk #[0, 0, 0] 2).perform (.putAt (-3) 5) =
        (.error (.reported ⟨-1, 3⟩), ⟨#[0, 0, 0], 2⟩) := by
  have hsize : ((3 : Nat) : Int) ≤ greatestPosition := by decide
  have hoperation : (Operation.putAt (-3) 5).displacement? = some (-3) := rfl
  have hafter : (⟨#[0, 0, 0], 2⟩ : Tape) = (blank 3).after [.moveBy 7, .moveBy 2] := by decide
  obtain ⟨-, -, hreported, -, hkept⟩ :=
    displaced_exact hsize [.moveBy 7, .moveBy 2] hoperation (by decide) hafter
  have hanswer := hreported.mpr ⟨by decide, by decide⟩
  exact ⟨hsize, hoperation, by decide, hafter, Prod.ext hanswer (hkept _ hanswer)⟩

/-- The greatest displacement of all leads off the tape from the second cell, and is not reported. -/
theorem displaced_unreported :
    ∃ t, t = (blank 2).after [.moveBy 1] ∧
      ¬(0 ≤ t.cursor + greatestPosition ∧ t.cursor + greatestPosition < (2 : Nat)) ∧
      t.perform (.moveBy greatestPosition) = (.error (.crashed .overflow), t) ∧
      t.perform (.cellAt greatestPosition) = (.error (.crashed .overflow), t) :=
  have hover : ¬(Tape.mk #[0, 0] 1).InWord greatestPosition := fun h => absurd h.2 (by decide)
  ⟨⟨#[0, 0], 1⟩, by decide, by decide,
    perform_of_error rfl (position?_of_not_inWord hover),
    perform_of_error rfl (position?_of_not_inWord hover)⟩

end Tape

end Brainfuck
