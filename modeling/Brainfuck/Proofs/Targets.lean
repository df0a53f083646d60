import Brainfuck.Idiom
import Mathlib.Algebra.GroupWithZero.Nat

/-!
# Targets of a walk

A walk away from a cell leaves a target wherever it adds something. All targets lie on the side the
walk goes to, the cell itself is none of them, and they come in the order of their places
(`mem_targets`, `pairwise_targets`).

`tally targets offset` is what the targets add at one place in all. It does not depend on the order
of the targets (`tally_targets`), and it grows with each step of the walk
(`tally_targetsFrom_increment`, `tally_targetsFrom_move`). Where the targets come in the order of
their places, each of them alone adds something at its place (`tally_eq_factor`).
-/

namespace Brainfuck

/-- What the targets add at one place in all. -/
def tally (targets : List Target) (offset : Int) : Nat :=
  (targets.map fun t => if t.offset = offset then t.factor else 0).sum

@[simp] theorem tally_nil (offset : Int) : tally [] offset = 0 := rfl

theorem tally_cons (t : Target) (targets : List Target) (offset : Int) :
    tally (t :: targets) offset =
      (if t.offset = offset then t.factor else 0) + tally targets offset := by
  simp only [tally, List.map_cons, List.sum_cons]

theorem tally_append (front behind : List Target) (offset : Int) :
    tally (front ++ behind) offset = tally front offset + tally behind offset := by
  simp only [tally, List.map_append, List.sum_append_nat]

theorem tally_reverse (targets : List Target) (offset : Int) :
    tally targets.reverse offset = tally targets offset := by
  simp only [tally, List.map_reverse, List.sum_reverse]

/-- Nothing is added where there is no target. -/
theorem tally_eq_zero {targets : List Target} {offset : Int}
    (h : ∀ t ∈ targets, t.offset ≠ offset) : tally targets offset = 0 := by
  induction targets with
  | nil => rfl
  | cons t targets ih =>
    rw [tally_cons, if_neg (h t List.mem_cons_self), Nat.zero_add]
    exact ih fun t' ht' => h t' (List.mem_cons_of_mem t ht')

/-- Where there is a target, something is added. -/
theorem tally_ne_zero {targets : List Target} {t : Target} (ht : t ∈ targets)
    (hfactor : 1 ≤ t.factor) : tally targets t.offset ≠ 0 := by
  induction targets with
  | nil => cases ht
  | cons t' targets ih =>
    rw [tally_cons]
    rcases List.mem_cons.mp ht with rfl | ht
    · rw [if_pos rfl]
      omega
    · have := ih ht
      omega

/-- Where something is added, there is a target. -/
theorem exists_target {targets : List Target} {offset : Int} (h : tally targets offset ≠ 0) :
    ∃ t ∈ targets, t.offset = offset := by
  by_cases hnone : ∀ t ∈ targets, t.offset ≠ offset
  · exact absurd (tally_eq_zero hnone) h
  · obtain ⟨t, ht⟩ := Classical.not_forall.mp hnone
    obtain ⟨hmem, hoffset⟩ := Classical.not_imp.mp ht
    exact ⟨t, hmem, Classical.not_not.mp hoffset⟩

/-- Where each target has a place of its own, it alone adds something there. -/
theorem tally_eq_factor {targets : List Target}
    (hplaces : targets.Pairwise fun s t => s.offset < t.offset) {t : Target} (ht : t ∈ targets) :
    tally targets t.offset = t.factor := by
  induction targets with
  | nil => cases ht
  | cons first rest ih =>
    obtain ⟨hfirst, hrest⟩ := List.pairwise_cons.mp hplaces
    rw [tally_cons]
    rcases List.mem_cons.mp ht with rfl | ht
    · have hnone : tally rest t.offset = 0 :=
        tally_eq_zero fun u hu heq => absurd (hfirst u hu) (by omega)
      rw [if_pos rfl, hnone, Nat.add_zero]
    · rw [if_neg (Int.ne_of_lt (hfirst t ht)), ih hrest ht, Nat.zero_add]

/-- In a row of targets in the order of their places, those in front of one are the lesser ones. -/
theorem mem_front_iff {front behind : List Target} {missing u : Target}
    (hplaces : (front ++ missing :: behind).Pairwise fun s t => s.offset < t.offset) :
    u ∈ front ↔ u ∈ front ++ missing :: behind ∧ u.offset < missing.offset := by
  obtain ⟨-, hbehind, hfront⟩ := List.pairwise_append.mp hplaces
  constructor
  · intro hu
    exact ⟨List.mem_append_left _ hu, hfront u hu missing List.mem_cons_self⟩
  · rintro ⟨hu, hlt⟩
    rcases List.mem_append.mp hu with hu | hu
    · exact hu
    · rcases List.mem_cons.mp hu with rfl | hu
      · omega
      · have := (List.pairwise_cons.mp hbehind).1 u hu
        omega

namespace Idiom

/-- One more increment at the depth where the walk is. -/
theorem targetsFrom_increment {d : Direction} {depth count : Nat} {t : Token} (rest : List Token)
    (h : t.command = .increment) :
    targetsFrom d depth count (t :: rest) = targetsFrom d depth (count + 1) rest := by
  obtain ⟨c, offset⟩ := t
  cases h
  rfl

/-- One move further. -/
theorem targetsFrom_move {d : Direction} {depth count : Nat} {t : Token} (rest : List Token)
    (h : t.command = .move d) :
    targetsFrom d depth count (t :: rest) =
      targetAt d depth count ++ targetsFrom d (depth + 1) 0 rest := by
  obtain ⟨c, offset⟩ := t
  cases h
  rfl

/-- A token of a walk is a move or an increment. -/
theorem outbound_iff {d : Direction} {t : Token} :
    outbound d t = true ↔ t.command = .move d ∨ t.command = .increment := by
  simp only [outbound, Bool.or_eq_true, decide_eq_true_eq]

theorem countP_moves_of_move {d : Direction} {t : Token} (walk : List Token)
    (h : t.command = .move d) : (t :: walk).countP (moves d) = walk.countP (moves d) + 1 :=
  List.countP_cons_of_pos (decide_eq_true h)

theorem countP_moves_of_increment {d : Direction} {t : Token} (walk : List Token)
    (h : t.command = .increment) : (t :: walk).countP (moves d) = walk.countP (moves d) := by
  apply List.countP_cons_of_neg
  intro hmoves
  rw [moves, h] at hmoves
  cases of_decide_eq_true hmoves

/-! ## Where the targets lie -/

theorem mem_targetAt {d : Direction} {depth count : Nat} {t : Target}
    (h : t ∈ targetAt d depth count) : t = ⟨d.unit * depth, count⟩ ∧ 1 ≤ count := by
  unfold targetAt at h
  split at h
  · cases h
  · next hcount => exact ⟨List.mem_singleton.mp h, Nat.one_le_iff_ne_zero.mpr hcount⟩

/-- The targets lie no nearer than where the walk is, and no further than it has tokens left. -/
theorem mem_targetsFrom {d : Direction} {walk : List Token} (hwalk : ∀ t ∈ walk, outbound d t) :
    ∀ {depth count : Nat} {t : Target}, t ∈ targetsFrom d depth count walk →
      (∃ k : Nat, depth ≤ k ∧ k ≤ depth + walk.length ∧ t.offset = d.unit * k) ∧ 1 ≤ t.factor := by
  induction walk with
  | nil =>
    intro depth count t ht
    obtain ⟨rfl, hcount⟩ := mem_targetAt ht
    exact ⟨⟨depth, Nat.le_refl depth, Nat.le_add_right .., rfl⟩, hcount⟩
  | cons token rest ih =>
    intro depth count t ht
    have hrest := fun t ht => hwalk t (List.mem_cons_of_mem token ht)
    rw [List.length_cons]
    rcases outbound_iff.mp (hwalk token List.mem_cons_self) with hmove | hincrement
    · rw [targetsFrom_move rest hmove] at ht
      rcases List.mem_append.mp ht with ht | ht
      · obtain ⟨rfl, hcount⟩ := mem_targetAt ht
        exact ⟨⟨depth, Nat.le_refl depth, Nat.le_add_right .., rfl⟩, hcount⟩
      · obtain ⟨⟨k, hk, hfar, hoffset⟩, hfactor⟩ := ih hrest ht
        exact ⟨⟨k, Nat.le_of_succ_le hk, by omega, hoffset⟩, hfactor⟩
    · rw [targetsFrom_increment rest hincrement] at ht
      obtain ⟨⟨k, hk, hfar, hoffset⟩, hfactor⟩ := ih hrest ht
      exact ⟨⟨k, hk, by omega, hoffset⟩, hfactor⟩

/-- What a target adds has been counted one token at a time. -/
theorem factor_le_of_mem_targetsFrom {d : Direction} {walk : List Token}
    (hwalk : ∀ t ∈ walk, outbound d t) :
    ∀ {depth count : Nat} {t : Target}, t ∈ targetsFrom d depth count walk →
      t.factor ≤ count + walk.length := by
  induction walk with
  | nil =>
    intro depth count t ht
    obtain ⟨rfl, -⟩ := mem_targetAt ht
    exact Nat.le_refl count
  | cons token rest ih =>
    intro depth count t ht
    have hrest := fun t ht => hwalk t (List.mem_cons_of_mem token ht)
    rw [List.length_cons]
    rcases outbound_iff.mp (hwalk token List.mem_cons_self) with hmove | hincrement
    · rw [targetsFrom_move rest hmove] at ht
      rcases List.mem_append.mp ht with ht | ht
      · obtain ⟨rfl, -⟩ := mem_targetAt ht
        exact Nat.le_add_right ..
      · have := ih hrest ht
        omega
    · rw [targetsFrom_increment rest hincrement] at ht
      have := ih hrest ht
      omega

/-- Each target lies further away than those before it. -/
theorem pairwise_targetsFrom {d : Direction} {walk : List Token}
    (hwalk : ∀ t ∈ walk, outbound d t) (depth count : Nat) :
    (targetsFrom d depth count walk).Pairwise
      fun near far => d.unit * near.offset < d.unit * far.offset := by
  induction walk generalizing depth count with
  | nil =>
    rw [targetsFrom, targetAt]
    split
    · exact List.Pairwise.nil
    · exact List.pairwise_singleton ..
  | cons token rest ih =>
    have hrest := fun t ht => hwalk t (List.mem_cons_of_mem token ht)
    rcases outbound_iff.mp (hwalk token List.mem_cons_self) with hmove | hincrement
    · rw [targetsFrom_move rest hmove, targetAt]
      split
      · exact ih hrest (depth + 1) 0
      · refine List.pairwise_cons.mpr ⟨?_, ih hrest (depth + 1) 0⟩
        intro far hfar
        obtain ⟨⟨k, hk, -, hoffset⟩, -⟩ := mem_targetsFrom hrest hfar
        rw [hoffset]
        cases d <;> simp only [Direction.unit] <;> omega
    · rw [targetsFrom_increment rest hincrement]
      exact ih hrest depth (count + 1)

/-- What has been counted at a depth becomes a target there. -/
theorem targetsFrom_ne_nil {d : Direction} {depth count : Nat} {walk : List Token}
    (hwalk : ∀ t ∈ walk, outbound d t)
    (h : 0 < count ∨ ∃ t ∈ walk, t.command = .increment) :
    targetsFrom d depth count walk ≠ [] := by
  induction walk generalizing depth count with
  | nil =>
    rcases h with hcount | ⟨t, ht, -⟩
    · rw [targetsFrom, targetAt, if_neg (Nat.ne_of_gt hcount)]
      exact List.cons_ne_nil _ _
    · cases ht
  | cons token rest ih =>
    have hrest := fun t ht => hwalk t (List.mem_cons_of_mem token ht)
    rcases outbound_iff.mp (hwalk token List.mem_cons_self) with hmove | hincrement
    · rw [targetsFrom_move rest hmove]
      rcases h with hcount | ⟨t, ht, hadds⟩
      -- what has been counted becomes a target when the walk moves on
      · rw [targetAt, if_neg (Nat.ne_of_gt hcount)]
        exact List.cons_ne_nil _ _
      · rcases List.mem_cons.mp ht with rfl | ht
        · rw [hmove] at hadds
          cases hadds
        · exact List.append_ne_nil_of_right_ne_nil _ (ih hrest (Or.inr ⟨t, ht, hadds⟩))
    · rw [targetsFrom_increment rest hincrement]
      exact ih hrest (Or.inl (Nat.succ_pos count))

/-! ## What the targets add -/

/-- What has been counted at a depth is added there, besides what the rest of the walk adds. -/
theorem tally_targetsFrom_count {d : Direction} {walk : List Token}
    (hwalk : ∀ t ∈ walk, outbound d t) (depth count : Nat) (offset : Int) :
    tally (targetsFrom d depth count walk) offset =
      (if d.unit * depth = offset then count else 0) +
        tally (targetsFrom d depth 0 walk) offset := by
  have hat : ∀ count, tally (targetAt d depth count) offset =
      if d.unit * depth = offset then count else 0 := by
    intro count
    rw [targetAt]
    split
    · next hcount =>
      rw [hcount]
      exact (ite_self 0).symm
    · rw [tally_cons, tally_nil, Nat.add_zero]
  induction walk generalizing count with
  | nil =>
    rw [targetsFrom, targetsFrom, hat count, hat 0, ite_self, Nat.add_zero]
  | cons token rest ih =>
    have hrest := fun t ht => hwalk t (List.mem_cons_of_mem token ht)
    rcases outbound_iff.mp (hwalk token List.mem_cons_self) with hmove | hincrement
    · rw [targetsFrom_move rest hmove, targetsFrom_move rest hmove, tally_append, tally_append,
        hat count, hat 0, ite_self, Nat.zero_add]
    · rw [targetsFrom_increment rest hincrement, targetsFrom_increment rest hincrement,
        ih hrest (count + 1), ih hrest (0 + 1)]
      split <;> omega

/-- An increment adds one where the walk is. -/
theorem tally_targetsFrom_increment {d : Direction} {t : Token} {rest : List Token}
    (hwalk : ∀ t ∈ rest, outbound d t) (h : t.command = .increment) (depth : Nat) (offset : Int) :
    tally (targetsFrom d depth 0 (t :: rest)) offset =
      (if d.unit * depth = offset then 1 else 0) + tally (targetsFrom d depth 0 rest) offset := by
  rw [targetsFrom_increment rest h, tally_targetsFrom_count hwalk]

/-- A move adds nothing. -/
theorem tally_targetsFrom_move {d : Direction} {t : Token} {rest : List Token}
    (h : t.command = .move d) (depth : Nat) (offset : Int) :
    tally (targetsFrom d depth 0 (t :: rest)) offset =
      tally (targetsFrom d (depth + 1) 0 rest) offset := by
  rw [targetsFrom_move rest h, targetAt, if_pos rfl, List.nil_append]

/-! ## The targets of a copying loop -/

section Targets

variable {d : Direction} {first : Token} {rest : List Token}

theorem forall_outbound (hfirst : first.command = .move d) (hrest : ∀ t ∈ rest, outbound d t) :
    ∀ t ∈ first :: rest, outbound d t := by
  intro t ht
  rcases List.mem_cons.mp ht with rfl | ht
  · exact outbound_iff.mpr (Or.inl hfirst)
  · exact hrest t ht

/-- The order of the targets, which is that of their places, does not matter for what they add. -/
theorem tally_targets (walk : List Token) (offset : Int) :
    tally (targets d walk) offset = tally (targetsFrom d 0 0 walk) offset := by
  cases d with
  | left => exact tally_reverse _ offset
  | right => rfl

theorem mem_targets_iff {walk : List Token} {t : Target} :
    t ∈ targets d walk ↔ t ∈ targetsFrom d 0 0 walk := by
  cases d with
  | left => exact List.mem_reverse
  | right => exact Iff.rfl

/-- A walk that starts with a move has no target in the cell it starts from. -/
theorem mem_targets (hfirst : first.command = .move d) (hrest : ∀ t ∈ rest, outbound d t)
    {t : Target} (h : t ∈ targets d (first :: rest)) :
    (∃ k : Nat, 1 ≤ k ∧ k ≤ 1 + rest.length ∧ t.offset = d.unit * k) ∧ 1 ≤ t.factor := by
  rw [mem_targets_iff, targetsFrom_move rest hfirst, targetAt, if_pos rfl, List.nil_append] at h
  exact mem_targetsFrom hrest h

/-- The targets come in the order of their places. -/
theorem pairwise_targets {walk : List Token} (hwalk : ∀ t ∈ walk, outbound d t) :
    (targets d walk).Pairwise fun s t => s.offset < t.offset := by
  have hfrom := pairwise_targetsFrom hwalk 0 0
  cases d with
  | left =>
    apply List.pairwise_reverse.mpr
    apply hfrom.imp
    intro s t h
    simp only [Direction.unit] at h
    omega
  | right =>
    apply hfrom.imp
    intro s t h
    simp only [Direction.unit] at h
    omega

theorem targets_ne_nil {walk : List Token} (hwalk : ∀ t ∈ walk, outbound d t)
    (hadds : ∃ t ∈ walk, t.command = .increment) : targets d walk ≠ [] := by
  have hne : targetsFrom d 0 0 walk ≠ [] := targetsFrom_ne_nil hwalk (Or.inr hadds)
  cases d with
  | left => exact fun h => hne (List.reverse_eq_nil_iff.mp h)
  | right => exact hne

end Targets

end Idiom

end Brainfuck
