import Brainfuck.Proofs.Cells

/-!
# Where an opcode leaves the tape

An opcode leaves the tape with its move, or with a target of its copy. The machine comes to the
targets in the order of their places and the plain interpreter from the cell outwards, so the two
name the same cell, except where a copy to the left misses more than one target: then the machine
names the furthest of these and the plain interpreter the nearest (`Opcode.Leaves`).

`Opcode.Leaves.position_eq_iff` says when the two cells are the same.
-/

namespace Brainfuck

namespace Opcode

/-- The targets of the opcode. Only a copy has any. -/
def targets (o : Opcode) : List Target :=
  match o.action with
  | .perform (.copy targets) => targets
  | _ => []

/-- A target of the opcode is not on the tape. -/
def Misses (o : Opcode) (t : Tape) (target : Target) : Prop :=
  target ∈ o.targets ∧ ¬t.Holds (t.cursor + o.move + target.offset)

/-- The opcode is a copy to the left that misses two targets. -/
def MissesTwoLeft (o : Opcode) (t : Tape) : Prop :=
  t.Holds (t.cursor + o.move) ∧
    ∃ far near, o.Misses t far ∧ o.Misses t near ∧ far.offset < near.offset ∧ near.offset < 0

/-- What the machine reports of an opcode that leaves the tape, and where the plain interpreter is
when it leaves it. -/
inductive Leaves (o : Opcode) (t : Tape) : OffTape → Int → Prop
  /-- The move leads off the tape. -/
  | landing (hnot : ¬t.Holds (t.cursor + o.move)) :
      Leaves o t ⟨t.cursor + o.move, t.size⟩ (t.cursor + o.move)
  /-- The move leads to a cell, but some targets are missing. All these are on one side. -/
  | copy {first nearest : Target} (hholds : t.Holds (t.cursor + o.move))
      (hfirst : o.Misses t first) (hleast : ∀ u, o.Misses t u → first.offset ≤ u.offset)
      (hnearest : o.Misses t nearest)
      (hnone : ∀ u, o.Misses t u → nearest.offset.natAbs ≤ u.offset.natAbs)
      (hside : (∀ u, o.Misses t u → 0 < u.offset) ∨ ∀ u, o.Misses t u → u.offset < 0) :
      Leaves o t ⟨t.cursor + o.move + first.offset, t.size⟩
        (t.cursor + o.move + nearest.offset)

variable {o : Opcode} {t : Tape} {e : OffTape} {position : Int}

theorem Leaves.size_eq (h : o.Leaves t e position) : e.size = t.size := by
  cases h with
  | landing => rfl
  | copy => rfl

/-- **Both name the same cell**, unless the opcode is a copy to the left that misses two targets. -/
theorem Leaves.position_eq_iff (h : o.Leaves t e position) :
    e.position = position ↔ ¬o.MissesTwoLeft t := by
  cases h with
  | landing hnot => exact iff_of_true rfl fun htwo => hnot htwo.1
  | @copy first nearest hholds hfirst hleast hnearest hnone hside =>
    have hle := hleast nearest hnearest
    have habs := hnone first hfirst
    show t.cursor + o.move + first.offset = t.cursor + o.move + nearest.offset ↔ _
    rcases hside with hright | hleft
    · -- to the right the first target is the nearest
      have := hright first hfirst
      have := hright nearest hnearest
      refine iff_of_true (by omega) ?_
      rintro ⟨-, far, near, hfar, hnear, -, hneg⟩
      have := hright near hnear
      omega
    · have := hleft first hfirst
      have := hleft nearest hnearest
      constructor
      · rintro heq ⟨-, far, near, hfar, hnear, hlt, -⟩
        have := hleast far hfar
        have := hnone near hnear
        have := hleft near hnear
        omega
      · intro hone
        have : ¬first.offset < nearest.offset := fun hlt =>
          hone ⟨hholds, first, nearest, hfirst, hnearest, hlt, hleft nearest hnearest⟩
        omega

end Opcode

end Brainfuck
