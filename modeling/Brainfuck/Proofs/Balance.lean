import Brainfuck.Error
import Mathlib.Algebra.Ring.Int.Defs
import Mathlib.Data.List.Induction

/-!
# Balanced rows of brackets

A row is a list whose items may be brackets: the commands of a text, its bytes, or the phrases it is
cut into. What counts as a bracket is told by a function `bracket?`, so that what is proved here
holds of all three.

Main result: `balanced_or_surplus_or_open`. A row is balanced, or it has a first closing bracket
that nothing before it opens, or it never falls below its own level and has a last opening bracket
that nothing behind it closes. In the second case the row in front of the bracket is balanced, in
the third the row behind it.

That the partner of a bracket exists follows from it: in a balanced row what stands behind an
opening bracket can only be of the second kind (`Balanced.exists_end`), and what stands in front of
a closing bracket can only be of the third (`Balanced.exists_start`).

A row may be cut into parts that each stand for a bracket or for none. What is balanced as a row of
parts is balanced as a whole (`Balanced.flatMap`).
-/

namespace Brainfuck

/-- How much deeper one is behind a bracket than in front of it. -/
def level : Option Bracket → Int
  | none => 0
  | some .opening => 1
  | some .closing => -1

section Rows

variable {α : Type}

/-- How much deeper one is behind a row than in front of it. -/
def depth (bracket? : α → Option Bracket) (row : List α) : Int :=
  (row.map fun x => level (bracket? x)).sum

/-- No front part of the row closes more than it opens. -/
def NeverBelow (bracket? : α → Option Bracket) (row : List α) : Prop :=
  ∀ front, front <+: row → 0 ≤ depth bracket? front

/-- Every bracket of the row has its partner in the row. -/
structure Balanced (bracket? : α → Option Bracket) (row : List α) : Prop where
  neverBelow : NeverBelow bracket? row
  depth_eq_zero : depth bracket? row = 0

/-- The row starts with a balanced one, behind which `x` closes what nothing has opened. -/
def SurplusAt (bracket? : α → Option Bracket) (row : List α) (front : List α) (x : α) : Prop :=
  bracket? x = some .closing ∧ Balanced bracket? front ∧ ∃ behind, row = front ++ x :: behind

/-- The row ends with a balanced one, in front of which `x` opens what nothing closes. -/
def OpenAt (bracket? : α → Option Bracket) (row : List α) (front : List α) (x : α) : Prop :=
  bracket? x = some .opening ∧ NeverBelow bracket? row ∧
    ∃ behind, Balanced bracket? behind ∧ row = front ++ x :: behind

variable {bracket? : α → Option Bracket}

@[simp] theorem depth_nil : depth bracket? [] = 0 := rfl

@[simp] theorem depth_cons (x : α) (row : List α) :
    depth bracket? (x :: row) = level (bracket? x) + depth bracket? row := by
  simp only [depth, List.map_cons, List.sum_cons]

@[simp] theorem depth_append (front behind : List α) :
    depth bracket? (front ++ behind) = depth bracket? front + depth bracket? behind := by
  simp only [depth, List.map_append, List.sum_append_int]

theorem depth_singleton (x : α) : depth bracket? [x] = level (bracket? x) := by
  rw [depth_cons, depth_nil, Int.add_zero]

theorem NeverBelow.depth_nonneg {row : List α} (h : NeverBelow bracket? row) :
    0 ≤ depth bracket? row :=
  h row (List.prefix_refl row)

theorem neverBelow_nil : NeverBelow bracket? ([] : List α) := by
  intro front h
  rw [List.prefix_nil.mp h]
  exact Int.le_refl 0

theorem NeverBelow.left {front behind : List α} (h : NeverBelow bracket? (front ++ behind)) :
    NeverBelow bracket? front :=
  fun part hpart => h part (hpart.trans (List.prefix_append front behind))

/-- One level deeper, a row may fall one level lower. -/
theorem neverBelow_append_iff {front behind : List α} :
    NeverBelow bracket? (front ++ behind) ↔
      NeverBelow bracket? front ∧
        ∀ part, part <+: behind → 0 ≤ depth bracket? front + depth bracket? part := by
  constructor
  · intro h
    refine ⟨h.left, ?_⟩
    intro part hpart
    rw [← depth_append]
    exact h (front ++ part) ((List.prefix_append_right_inj front).mpr hpart)
  · rintro ⟨hfront, hbehind⟩ part hpart
    rcases List.prefix_or_prefix_of_prefix hpart (List.prefix_append front behind) with
      h | ⟨more, rfl⟩
    · exact hfront part h
    · rw [depth_append]
      exact hbehind more ((List.prefix_append_right_inj front).mp hpart)

theorem neverBelow_concat_iff {row : List α} {x : α} :
    NeverBelow bracket? (row ++ [x]) ↔
      NeverBelow bracket? row ∧ 0 ≤ depth bracket? row + level (bracket? x) := by
  rw [neverBelow_append_iff]
  refine and_congr_right fun hrow => ⟨fun h => ?_, fun h part hpart => ?_⟩
  · have := h [x] (List.prefix_refl [x])
    rwa [depth_singleton] at this
  · rcases part with - | ⟨y, part⟩
    · rw [depth_nil, Int.add_zero]
      exact hrow.depth_nonneg
    · obtain ⟨rfl, htail⟩ := List.cons_prefix_cons.mp hpart
      rw [List.prefix_nil.mp htail, depth_singleton]
      exact h

theorem balanced_nil : Balanced bracket? ([] : List α) := ⟨neverBelow_nil, rfl⟩

theorem NeverBelow.append {front behind : List α} (hfront : NeverBelow bracket? front)
    (hbehind : NeverBelow bracket? behind) : NeverBelow bracket? (front ++ behind) := by
  refine neverBelow_append_iff.mpr ⟨hfront, ?_⟩
  intro part hpart
  have := hfront.depth_nonneg
  have := hbehind part hpart
  omega

theorem Balanced.append {front behind : List α} (hfront : Balanced bracket? front)
    (hbehind : Balanced bracket? behind) : Balanced bracket? (front ++ behind) := by
  refine ⟨hfront.neverBelow.append hbehind.neverBelow, ?_⟩
  rw [depth_append, hfront.depth_eq_zero, hbehind.depth_eq_zero]
  rfl

/-- An item that is no bracket is balanced by itself. -/
theorem balanced_singleton {x : α} (h : bracket? x = none) : Balanced bracket? [x] := by
  have hx : NeverBelow bracket? ([] ++ [x]) := by
    rw [neverBelow_concat_iff, h]
    exact ⟨neverBelow_nil, Int.le_refl 0⟩
  refine ⟨hx, ?_⟩
  rw [depth_singleton, h]
  rfl

/-- A pair of brackets around a balanced row. -/
theorem Balanced.enclose {x y : α} {row : List α} (hx : bracket? x = some .opening)
    (hy : bracket? y = some .closing) (h : Balanced bracket? row) :
    Balanced bracket? (x :: row ++ [y]) := by
  have hopen : NeverBelow bracket? (x :: row) := by
    intro part hpart
    rcases part with - | ⟨z, part⟩
    · exact Int.le_refl 0
    · obtain ⟨rfl, htail⟩ := List.cons_prefix_cons.mp hpart
      have := h.neverBelow part htail
      rw [depth_cons, hx]
      show 0 ≤ 1 + depth bracket? part
      omega
  have hdepth : depth bracket? (x :: row) + level (bracket? y) = 0 := by
    rw [depth_cons, hx, hy, h.depth_eq_zero]
    rfl
  refine ⟨neverBelow_concat_iff.mpr ⟨hopen, Int.le_of_eq hdepth.symm⟩, ?_⟩
  rw [depth_append, depth_singleton]
  exact hdepth

/-! ## Rows seen through a function -/

theorem depth_map {β : Type} (f : β → α) (row : List β) :
    depth bracket? (row.map f) = depth (fun x => bracket? (f x)) row := by
  rw [depth, List.map_map]
  rfl

theorem neverBelow_map_iff {β : Type} {f : β → α} {row : List β} :
    NeverBelow bracket? (row.map f) ↔ NeverBelow (fun x => bracket? (f x)) row := by
  constructor
  · intro h part hpart
    rw [← depth_map]
    exact h (part.map f) (hpart.map f)
  · intro h part hpart
    rw [List.prefix_iff_eq_take.mp hpart, ← List.map_take, depth_map]
    exact h _ (List.take_prefix part.length row)

theorem balanced_map_iff {β : Type} {f : β → α} {row : List β} :
    Balanced bracket? (row.map f) ↔ Balanced (fun x => bracket? (f x)) row := by
  constructor
  · intro h
    exact ⟨neverBelow_map_iff.mp h.neverBelow, depth_map f row ▸ h.depth_eq_zero⟩
  · intro h
    exact ⟨neverBelow_map_iff.mpr h.neverBelow, (depth_map f row).trans h.depth_eq_zero⟩

/-! ## Rows cut into parts -/

/-- The part of a row stands for `kind`: it is that bracket alone, or is balanced if `kind` is no
bracket. -/
def StandsFor (bracket? : α → Option Bracket) (kind : Option Bracket) (part : List α) : Prop :=
  match kind with
  | none => Balanced bracket? part
  | some b => ∃ x, part = [x] ∧ bracket? x = some b

theorem StandsFor.depth_eq {kind : Option Bracket} {part : List α}
    (h : StandsFor bracket? kind part) : depth bracket? part = level kind := by
  cases kind with
  | none => exact h.depth_eq_zero
  | some b =>
    obtain ⟨x, rfl, hx⟩ := h
    rw [depth_singleton, hx]

section Parts

variable {β : Type} {kind? : β → Option Bracket} {part : β → List α}
  (h : ∀ y, StandsFor bracket? (kind? y) (part y))

include h

theorem depth_flatMap (row : List β) :
    depth bracket? (row.flatMap part) = depth kind? row := by
  induction row with
  | nil => rfl
  | cons y row ih => rw [List.flatMap_cons, depth_append, depth_cons, (h y).depth_eq, ih]

/-- If no front part of a row closes too much, none does of the row it is a cut of: within a part
that is no bracket, everything is opened first. -/
theorem NeverBelow.flatMap {row : List β} (hrow : NeverBelow kind? row) :
    NeverBelow bracket? (row.flatMap part) := by
  induction row using List.reverseRecOn with
  | nil => exact neverBelow_nil
  | append_singleton row y ih =>
    obtain ⟨hrow, hy⟩ := neverBelow_concat_iff.mp hrow
    have hpart := h y
    rw [List.flatMap_append, List.flatMap_singleton]
    cases hkind : kind? y with
    | none =>
      rw [hkind] at hpart
      exact (ih hrow).append hpart.neverBelow
    | some b =>
      rw [hkind] at hpart hy
      obtain ⟨x, hpart, hx⟩ := hpart
      rw [hpart, neverBelow_concat_iff, depth_flatMap h, hx]
      exact ⟨ih hrow, hy⟩

theorem Balanced.flatMap {row : List β} (hrow : Balanced kind? row) :
    Balanced bracket? (row.flatMap part) :=
  ⟨hrow.neverBelow.flatMap h, (depth_flatMap h row).trans hrow.depth_eq_zero⟩

end Parts

/-! ## The three kinds of row -/

theorem SurplusAt.append {row front : List α} {x : α} (h : SurplusAt bracket? row front x)
    (more : List α) : SurplusAt bracket? (row ++ more) front x := by
  obtain ⟨hx, hfront, behind, rfl⟩ := h
  refine ⟨hx, hfront, behind ++ more, ?_⟩
  rw [List.append_assoc, List.cons_append]

theorem OpenAt.append {row front more : List α} {x : α} (h : OpenAt bracket? row front x)
    (hmore : Balanced bracket? more) : OpenAt bracket? (row ++ more) front x := by
  obtain ⟨hx, hnever, behind, hbehind, rfl⟩ := h
  refine ⟨hx, hnever.append hmore.neverBelow, behind ++ more, hbehind.append hmore, ?_⟩
  rw [List.append_assoc, List.cons_append]

/-- Of which kind a row is does not change with a balanced row behind it. -/
theorem kind_append {row more : List α} (hmore : Balanced bracket? more)
    (h : Balanced bracket? row ∨ (∃ front x, SurplusAt bracket? row front x) ∨
      ∃ front x, OpenAt bracket? row front x) :
    Balanced bracket? (row ++ more) ∨ (∃ front x, SurplusAt bracket? (row ++ more) front x) ∨
      ∃ front x, OpenAt bracket? (row ++ more) front x := by
  rcases h with hrow | ⟨front, x, hsurplus⟩ | ⟨front, x, hopen⟩
  · exact Or.inl (hrow.append hmore)
  · exact Or.inr (Or.inl ⟨front, x, hsurplus.append more⟩)
  · exact Or.inr (Or.inr ⟨front, x, hopen.append hmore⟩)

/-- What is open behind a row that never closes too much, when an opening bracket follows. -/
theorem openAt_concat {row : List α} {x : α} (hrow : NeverBelow bracket? row)
    (hx : bracket? x = some .opening) : OpenAt bracket? (row ++ [x]) row x := by
  refine ⟨hx, ?_, [], balanced_nil, rfl⟩
  rw [neverBelow_concat_iff, hx]
  exact ⟨hrow, Int.add_nonneg hrow.depth_nonneg (by decide)⟩

/-- **Every row is balanced, or closes too much, or leaves something open.** The items are taken up
one by one. When an item closes the bracket that was open last, what lies in front of that bracket
decides anew, so the recursion is on the length of the row. -/
theorem balanced_or_surplus_or_open (bracket? : α → Option Bracket) (row : List α) :
    Balanced bracket? row ∨ (∃ front x, SurplusAt bracket? row front x) ∨
      ∃ front x, OpenAt bracket? row front x := by
  induction hlength : row.length using Nat.strongRecOn generalizing row with
  | ind length ih =>
    subst hlength
    rcases List.eq_nil_or_concat row with rfl | ⟨init, last, rfl⟩
    · exact Or.inl balanced_nil
    rw [List.concat_eq_append] at ih ⊢
    have hshort : init.length < (init ++ [last]).length := by
      rw [List.length_append, List.length_singleton]
      exact Nat.lt_succ_self init.length
    have hkind := ih init.length hshort init rfl
    cases hlast : bracket? last with
    | none => exact kind_append (balanced_singleton hlast) hkind
    | some b =>
      rcases hkind with hinit | ⟨front, x, hsurplus⟩ | ⟨front, x, hopen⟩
      · cases b with
        | opening => exact Or.inr (Or.inr ⟨init, last, openAt_concat hinit.neverBelow hlast⟩)
        | closing => exact Or.inr (Or.inl ⟨init, last, hlast, hinit, [], rfl⟩)
      · exact Or.inr (Or.inl ⟨front, x, hsurplus.append [last]⟩)
      · obtain ⟨hx, hnever, behind, hbehind, rfl⟩ := hopen
        cases b with
        | opening => exact Or.inr (Or.inr ⟨_, last, openAt_concat hnever hlast⟩)
        | closing =>
          -- `last` is the partner of `x`, so the two enclose a balanced row
          have hpair := hbehind.enclose hx hlast
          have hfront : front.length < (front ++ x :: behind ++ [last]).length := by
            simp only [List.length_append, List.length_cons]
            omega
          rw [List.append_assoc, List.cons_append, ← List.cons_append]
          exact kind_append hpair (ih front.length hfront front rfl)

/-- A closing bracket that nothing opens takes a row below its level. -/
theorem SurplusAt.not_neverBelow {row front : List α} {x : α}
    (h : SurplusAt bracket? row front x) : ¬NeverBelow bracket? row := by
  obtain ⟨hx, hfront, behind, rfl⟩ := h
  intro hnever
  rw [List.append_cons] at hnever
  have hlow := (neverBelow_concat_iff.mp hnever.left).2
  rw [hfront.depth_eq_zero, hx] at hlow
  exact absurd hlow (by decide)

/-- In a balanced row an opening bracket has a partner behind it. -/
theorem Balanced.exists_end {front row : List α} {x : α}
    (h : Balanced bracket? (front ++ x :: row)) (hx : bracket? x = some .opening) :
    ∃ body y behind, row = body ++ y :: behind ∧ bracket? y = some .closing ∧
      Balanced bracket? body := by
  have hlow : depth bracket? row < 0 := by
    have hfront := h.neverBelow.left.depth_nonneg
    have hsum := h.depth_eq_zero
    rw [depth_append, depth_cons, hx] at hsum
    change depth bracket? front + (1 + depth bracket? row) = 0 at hsum
    omega
  rcases balanced_or_surplus_or_open bracket? row with
    hrow | ⟨body, y, hy, hbody, behind, rfl⟩ | ⟨_, _, _, hrow, _⟩
  · rw [hrow.depth_eq_zero] at hlow
    exact absurd hlow (by decide)
  · exact ⟨body, y, behind, rfl, hy, hbody⟩
  · exact absurd hrow.depth_nonneg (Int.not_le.mpr hlow)

/-- In a balanced row a closing bracket has a partner in front of it. -/
theorem Balanced.exists_start {row behind : List α} {y : α}
    (h : Balanced bracket? (row ++ y :: behind)) (hy : bracket? y = some .closing) :
    ∃ front x body, row = front ++ x :: body ∧ bracket? x = some .opening ∧
      Balanced bracket? body := by
  have hnever : NeverBelow bracket? (row ++ [y]) := by
    have := h.neverBelow
    rw [List.append_cons] at this
    exact this.left
  have hhigh := (neverBelow_concat_iff.mp hnever).2
  rw [hy] at hhigh
  change 0 ≤ depth bracket? row + -1 at hhigh
  rcases balanced_or_surplus_or_open bracket? row with
    hrow | ⟨_, _, hsurplus⟩ | ⟨front, x, hx, _, body, hbody, rfl⟩
  · rw [hrow.depth_eq_zero] at hhigh
    exact absurd hhigh (by decide)
  · exact absurd hnever.left hsurplus.not_neverBelow
  · exact ⟨front, x, body, rfl, hx, hbody⟩

/-- A row can be closed in one place only. -/
theorem Balanced.eq_of_append_eq {body body' behind behind' : List α} {y y' : α}
    (h : Balanced bracket? body) (h' : Balanced bracket? body')
    (hy : bracket? y = some .closing) (hy' : bracket? y' = some .closing)
    (heq : body ++ y :: behind = body' ++ y' :: behind') : body = body' := by
  -- one of the two is a front part of the other, and its `]` would be too much there
  have hpart : ∀ {short more tail tail' : List α} {z z' : α}, Balanced bracket? short →
      Balanced bracket? (short ++ more) → bracket? z = some .closing →
      z :: tail = more ++ z' :: tail' → more = [] := by
    intro short more tail tail' z z' hshort hlong hz htail
    cases more with
    | nil => rfl
    | cons w more =>
      rw [List.cons_append, List.cons.injEq] at htail
      obtain ⟨rfl, -⟩ := htail
      exact absurd hlong.neverBelow
        (SurplusAt.not_neverBelow (x := z) ⟨hz, hshort, more, rfl⟩)
  rcases List.append_eq_append_iff.mp heq with ⟨more, rfl, htail⟩ | ⟨more, rfl, htail⟩
  · rw [hpart h h' hy htail, List.append_nil]
  · rw [hpart h' h hy' htail, List.append_nil]

end Rows

end Brainfuck
