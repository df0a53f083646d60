import Brainfuck.Idiom.Walk
import Brainfuck.Proofs.Spelling
import Brainfuck.Proofs.Targets
import Mathlib.Data.List.Basic

/-!
# Walks in words

A walk that holds its numbers in words goes where a walk with numbers of any size goes, and adds
what that adds, but for one thing: the increments met at one place are counted in half a word, and a
text may have more of them than half a word can count.

* If that is checked, the walk crashes where a target is too heavy (`Heavy`).
* If it is not, half a word holds what it can of each factor (`heldTargets`), and the loop is
  declined where nothing is left of them (`Idiom.held?`).

What carries the proof is `Walk.Fits`: a walk is never further away than it has passed tokens, and
has counted the increments it has met, as far as half a word can. A stretch of the way out keeps
this (`Walk.out_append_cases`), and what has been added behind it are the targets of
`Idiom.targets`. The loop as a whole is `Idiom.copyAlongInWords?_cases`.
-/

namespace Brainfuck

variable {o : Overflow} {d : Direction}

/-! ## What half a word holds -/

/-- A number is held with the bits that there is room for. It has to fit if that is checked. -/
theorem Overflow.held_cases (o : Overflow) (greatest value : Nat) :
    (o.held greatest value = .ok (value % (greatest + 1)) ∧ (o = .crashes → value ≤ greatest)) ∨
      o = .crashes ∧ greatest < value ∧ o.held greatest value = .error .overflow := by
  cases o with
  | crashes =>
    by_cases h : value ≤ greatest
    · refine Or.inl ⟨?_, fun _ => h⟩
      rw [held_of_le _ h, Nat.mod_eq_of_lt (Nat.lt_succ_of_le h)]
    · exact Or.inr ⟨rfl, Nat.not_le.mp h, if_neg h⟩
  | wraps => exact Or.inl ⟨rfl, fun h => by cases h⟩

/-- The target as half a word holds it. If nothing is left of its factor there is none. -/
def Target.held? (t : Target) : Option Target :=
  if t.factor % (greatestHalfWord + 1) = 0 then none
  else some ⟨t.offset, t.factor % (greatestHalfWord + 1)⟩

/-- The targets as half words hold them. -/
def heldTargets (targets : List Target) : List Target := targets.filterMap Target.held?

/-- Some target adds more than half a word can count. -/
def Heavy (targets : List Target) : Prop := ∃ t ∈ targets, greatestHalfWord < t.factor

theorem heldTargets_append (front behind : List Target) :
    heldTargets (front ++ behind) = heldTargets front ++ heldTargets behind :=
  List.filterMap_append

theorem heldTargets_targetAt (d : Direction) (depth count : Nat) :
    heldTargets (Idiom.targetAt d depth count) =
      Idiom.targetAt d depth (count % (greatestHalfWord + 1)) := by
  by_cases hcount : count = 0
  · subst hcount
    rfl
  · rw [Idiom.targetAt, if_neg hcount, heldTargets, List.filterMap_cons, List.filterMap_nil,
      Target.held?, Idiom.targetAt]
    by_cases hheld : count % (greatestHalfWord + 1) = 0
    · rw [if_pos hheld, if_pos hheld]
    · rw [if_neg hheld, if_neg hheld]

/-- Targets that are not too heavy are held as they are. -/
theorem heldTargets_eq_self {targets : List Target} (hpos : ∀ t ∈ targets, 1 ≤ t.factor)
    (h : ¬Heavy targets) : heldTargets targets = targets := by
  have hheld : ∀ t ∈ targets, t.held? = some t := by
    intro t ht
    have hfits : t.factor ≤ greatestHalfWord := Nat.not_lt.mp fun hlt => h ⟨t, ht, hlt⟩
    have hmod := Nat.mod_eq_of_lt (Nat.lt_succ_of_le hfits)
    rw [Target.held?, hmod, if_neg (Nat.ne_of_gt (hpos t ht))]
  rw [heldTargets, List.filterMap_congr hheld, List.filterMap_some]

/-- What is held of a target is something, and no more than the target, in the same place. -/
theorem Target.of_held? {whole t : Target} (h : whole.held? = some t) :
    t.offset = whole.offset ∧ 1 ≤ t.factor ∧ t.factor ≤ whole.factor := by
  unfold held? at h
  split at h
  · cases h
  · next hsome =>
    cases h
    exact ⟨rfl, Nat.one_le_iff_ne_zero.mpr hsome, Nat.mod_le _ _⟩

theorem exists_of_mem_heldTargets {targets : List Target} {t : Target}
    (h : t ∈ heldTargets targets) : ∃ whole ∈ targets, whole.held? = some t :=
  List.mem_filterMap.mp h

/-- What is held of targets comes in the order of their places if they do. -/
theorem pairwise_heldTargets {targets : List Target}
    (h : targets.Pairwise fun s t => s.offset < t.offset) :
    (heldTargets targets).Pairwise fun s t => s.offset < t.offset := by
  refine List.pairwise_filterMap.mpr (h.imp fun hlt s hs t ht => ?_)
  rw [(Target.of_held? hs).1, (Target.of_held? ht).1]
  exact hlt

/-! ## Adding targets one by one -/

/-- The targets of a walk in direction `d`, in ascending order of their offsets, of which those in
`far` lie further away than those in `near`, and come in the order of the walk. -/
def joined (d : Direction) (near far : List Target) : List Target :=
  match d with
  | .right => near ++ far
  | .left => far.reverse ++ near

theorem joined_nil (d : Direction) (near : List Target) : joined d near [] = near := by
  cases d with
  | left => rfl
  | right => exact List.append_nil near

theorem joined_append (d : Direction) (near far further : List Target) :
    joined d near (far ++ further) = joined d (joined d near far) further := by
  cases d with
  | left => simp only [joined, List.reverse_append, List.append_assoc]
  | right => simp only [joined, List.append_assoc]

theorem mem_joined {near far : List Target} {t : Target} :
    t ∈ joined d near far ↔ t ∈ near ∨ t ∈ far := by
  cases d with
  | left =>
    rw [joined, List.mem_append, List.mem_reverse]
    exact Or.comm
  | right => exact List.mem_append

theorem joined_targetsFrom (d : Direction) (walk : List Token) :
    joined d [] (Idiom.targetsFrom d 0 0 walk) = Idiom.targets d walk := by
  cases d with
  | left => exact List.append_nil _
  | right => rfl

theorem joined_heldTargets (d : Direction) (far : List Target) :
    joined d [] (heldTargets far) = heldTargets (joined d [] far) := by
  cases d with
  | left => rw [joined, joined, List.append_nil, List.append_nil, heldTargets, heldTargets,
      List.filterMap_reverse]
  | right => rfl

/-- What is added further away than anything so far becomes a target of its own. -/
theorem addTarget_of_nearer {targets : List Target} {depth count : Nat}
    (hnearer : ∀ t ∈ targets, d.unit * t.offset < depth) (hcount : count ≤ greatestHalfWord) :
    addTarget o (d.unit * depth) count targets =
      .ok (joined d targets [⟨d.unit * depth, count⟩]) := by
  have hfactor : o.held greatestHalfWord (0 + count) = .ok count := by
    rw [Nat.zero_add, o.held_of_le hcount]
  cases d with
  | left =>
    cases targets with
    | nil =>
      rw [addTarget, hfactor]
      rfl
    | cons t rest =>
      have ht := hnearer t List.mem_cons_self
      simp only [Direction.unit] at ht
      rw [addTarget, if_neg (by simp only [Direction.unit]; omega),
        if_neg (by simp only [Direction.unit]; omega), hfactor]
      rfl
  | right =>
    induction targets with
    | nil =>
      rw [addTarget, hfactor]
      rfl
    | cons t rest ih =>
      have ht := hnearer t List.mem_cons_self
      simp only [Direction.unit] at ht
      rw [addTarget, if_pos (by simp only [Direction.unit]; omega),
        ih fun t ht => hnearer t (List.mem_cons_of_mem _ ht)]
      rfl

/-- What has been counted where the walk is becomes a target, with what is still to come there. -/
theorem Idiom.exists_target_of_count {walk : List Token} (hwalk : ∀ t ∈ walk, outbound d t)
    (depth : Nat) {count : Nat} (hcount : 0 < count) :
    ∃ t ∈ targetsFrom d depth count walk, count ≤ t.factor := by
  have hat : ∃ t ∈ targetAt d depth count, count ≤ t.factor := by
    rw [targetAt, if_neg (Nat.ne_of_gt hcount)]
    exact ⟨_, List.mem_singleton_self _, Nat.le_refl count⟩
  induction walk generalizing count with
  | nil => exact hat
  | cons token rest ih =>
    rcases outbound_iff.mp (hwalk token List.mem_cons_self) with hmove | hincrement
    · obtain ⟨t, ht, hle⟩ := hat
      rw [targetsFrom_move rest hmove]
      exact ⟨t, List.mem_append_left _ ht, hle⟩
    · rw [targetsFrom_increment rest hincrement]
      have hmore : ∃ t ∈ targetAt d depth (count + 1), count + 1 ≤ t.factor :=
        ⟨_, List.mem_singleton_self _, Nat.le_refl _⟩
      obtain ⟨t, ht, hle⟩ := ih (fun t ht => hwalk t (List.mem_cons_of_mem _ ht))
        (Nat.succ_pos count) hmore
      exact ⟨t, ht, Nat.le_of_succ_le hle⟩

/-! ## The way out -/

namespace Walk

/-- The walk is `depth` cells away in direction `d`, where it has met `count` increments, and has
left all its targets behind. It is no further away than it has passed tokens. -/
structure Fits (o : Overflow) (d : Direction) (depth count : Nat) (w : Walk) : Prop where
  depth_eq : w.depth = d.unit * depth
  depth_le : depth ≤ w.passed
  count_eq : w.count = count % (greatestHalfWord + 1)
  /-- More would have made it crash. -/
  count_le : o = .crashes → count ≤ greatestHalfWord
  nearer : ∀ t ∈ w.targets, d.unit * t.offset < depth

variable {w : Walk} {depth count : Nat}

/-- What the walk has added, that at the place where it is included. -/
def added (d : Direction) (depth : Nat) (w : Walk) : List Target :=
  joined d w.targets (Idiom.targetAt d depth w.count)

theorem Fits.added_eq (h : w.Fits o d depth count) :
    w.added d depth = joined d w.targets (heldTargets (Idiom.targetAt d depth count)) := by
  rw [added, heldTargets_targetAt, h.count_eq]

theorem Fits.settle_eq (h : w.Fits o d depth count) :
    w.settle o = .ok ⟨w.depth, 0, w.added d depth, w.passed⟩ := by
  unfold settle added Idiom.targetAt
  by_cases hcount : w.count = 0
  · rw [if_neg (by omega), if_pos hcount, joined_nil, ← hcount]
    rfl
  · have hheld : w.count ≤ greatestHalfWord := by
      rw [h.count_eq]
      exact Nat.le_of_lt_succ (Nat.mod_lt _ (Nat.succ_pos _))
    rw [if_pos (by omega), if_neg hcount, h.depth_eq, addTarget_of_nearer h.nearer hheld]
    rfl

/-- One increment more is counted, or is the one that half a word has no room for. -/
theorem Fits.increment_cases (h : w.Fits o d depth count)
    (hroom : ((w.passed + 1 : Nat) : Int) ≤ greatestPosition) :
    (∃ w', w.increment o = .ok w' ∧ w'.Fits o d depth (count + 1) ∧ w'.targets = w.targets ∧
      w'.passed = w.passed + 1) ∨
    o = .crashes ∧ greatestHalfWord < count + 1 ∧ w.increment o = .error .overflow := by
  have hmod : (w.count + 1) % (greatestHalfWord + 1) = (count + 1) % (greatestHalfWord + 1) := by
    rw [h.count_eq, Nat.mod_add_mod]
  -- where it is checked, all of the number has been counted so far
  have hexact : o = .crashes → w.count = count := by
    intro ho
    rw [h.count_eq, Nat.mod_eq_of_lt (Nat.lt_succ_of_le (h.count_le ho))]
  rcases o.held_cases greatestHalfWord (w.count + 1) with ⟨hheld, hfits⟩ | ⟨ho, hlt, hheld⟩
  · refine Or.inl ⟨⟨w.depth, (count + 1) % (greatestHalfWord + 1), w.targets, w.passed + 1⟩, ?_,
      ⟨h.depth_eq, Nat.le_succ_of_le h.depth_le, rfl, ?_, h.nearer⟩, rfl, rfl⟩
    · rw [increment, hheld, o.held_word_of_le hroom, hmod]
      rfl
    · intro ho
      rw [← hexact ho]
      exact hfits ho
  · refine Or.inr ⟨ho, hexact ho ▸ hlt, ?_⟩
    rw [increment, hheld]
    rfl

/-- A move to a place that is no further away than tokens have been passed. -/
theorem move_eq (hdepth : (w.depth + d.unit).natAbs ≤ w.passed + 1)
    (hroom : ((w.passed + 1 : Nat) : Int) ≤ greatestPosition) :
    w.move o d = .ok ⟨w.depth + d.unit, w.count, w.targets, w.passed + 1⟩ := by
  rw [move, o.heldSigned_of_natAbs_le (by omega), o.held_word_of_le hroom]
  rfl

/-- A move takes the walk one cell further and leaves a target behind. -/
theorem out_move {t : Token} (rest : List Token) (ht : t.command = .move d)
    (h : w.Fits o d depth count) (hroom : ((w.passed + 1 : Nat) : Int) ≤ greatestPosition) :
    out o d w (t :: rest) = out o d ⟨w.depth + d.unit, 0, w.added d depth, w.passed + 1⟩ rest := by
  have hdepth : (w.depth + d.unit).natAbs ≤ w.passed + 1 := by
    rw [h.depth_eq]
    have := h.depth_le
    cases d <;> simp only [Direction.unit] <;> omega
  have hmove : Walk.move o d ⟨w.depth, 0, w.added d depth, w.passed⟩ =
      .ok ⟨w.depth + d.unit, 0, w.added d depth, w.passed + 1⟩ := move_eq hdepth hroom
  rw [out, ht]
  show (w.settle o >>= fun w => if d = d then w.move o d >>= fun w => out o d w rest else _) = _
  rw [h.settle_eq]
  show (if d = d then Walk.move o d _ >>= fun w => out o d w rest else _) = _
  rw [if_pos rfl, hmove]
  rfl

/-- What has been added lies no further away than the walk is. -/
theorem Fits.offset_le (h : w.Fits o d depth count) {t : Target} (ht : t ∈ w.added d depth) :
    d.unit * t.offset ≤ depth := by
  rcases mem_joined.mp ht with ht | ht
  · exact Int.le_of_lt (h.nearer t ht)
  · obtain ⟨rfl, -⟩ := Idiom.mem_targetAt ht
    cases d <;> simp only [Direction.unit] <;> omega

/-- A move further leaves everything behind that has been added so far. -/
theorem Fits.further (h : w.Fits o d depth count) :
    Fits o d (depth + 1) 0 ⟨w.depth + d.unit, 0, w.added d depth, w.passed + 1⟩ := by
  refine ⟨?_, Nat.succ_le_succ h.depth_le, rfl, fun _ => Nat.zero_le _, ?_⟩
  · show w.depth + d.unit = _
    rw [h.depth_eq]
    cases d <;> simp only [Direction.unit] <;> omega
  · intro t ht
    have := h.offset_le ht
    omega

/-- The way out leads over increments and moves in its direction. What it adds is held in half
words. If that is checked, a target that is too heavy stops it. -/
theorem out_append_cases {walk : List Token} (hwalk : ∀ t ∈ walk, Idiom.outbound d t)
    (behind : List Token) (h : w.Fits o d depth count)
    (hroom : ((w.passed + walk.length : Nat) : Int) ≤ greatestPosition) :
    (∃ w' count', w'.Fits o d (depth + walk.countP (Idiom.moves d)) count' ∧
      w'.passed = w.passed + walk.length ∧
      w'.added d (depth + walk.countP (Idiom.moves d)) =
        joined d w.targets (heldTargets (Idiom.targetsFrom d depth count walk)) ∧
      out o d w (walk ++ behind) = out o d w' behind ∧
      (o = .crashes → ¬Heavy (Idiom.targetsFrom d depth count walk))) ∨
    o = .crashes ∧ Heavy (Idiom.targetsFrom d depth count walk) ∧
      out o d w (walk ++ behind) = .error .overflow := by
  induction walk generalizing w depth count with
  | nil =>
    refine Or.inl ⟨w, count, h, rfl, h.added_eq, rfl, ?_⟩
    rintro ho ⟨t, ht, hlt⟩
    obtain ⟨rfl, -⟩ := Idiom.mem_targetAt ht
    exact Nat.not_lt.mpr (h.count_le ho) hlt
  | cons t rest ih =>
    have hrest := fun t ht => hwalk t (List.mem_cons_of_mem _ ht)
    rw [List.length_cons] at hroom ⊢
    have hone : ((w.passed + 1 : Nat) : Int) ≤ greatestPosition := by omega
    rcases Idiom.outbound_iff.mp (hwalk t List.mem_cons_self) with ht | ht
    · have hout := out_move (rest ++ behind) ht h hone
      rw [Idiom.targetsFrom_move rest ht, Idiom.countP_moves_of_move rest ht, List.cons_append,
        hout, heldTargets_append, joined_append, ← h.added_eq]
      rcases ih hrest h.further (by show ((w.passed + 1 + rest.length : Nat) : Int) ≤ _; omega) with
        ⟨w', count', hw', hpassed, hadded, hgoes, hlight⟩ | ⟨ho, ⟨u, hu, hheavy⟩, hstops⟩
      · rw [Nat.add_assoc, Nat.add_comm 1] at hw' hadded
        refine Or.inl ⟨w', count', hw', ?_, hadded, hgoes, ?_⟩
        · rw [hpassed]
          show w.passed + 1 + _ = _
          omega
        · rintro ho ⟨u, hu, hheavy⟩
          rcases List.mem_append.mp hu with hu | hu
          · obtain ⟨rfl, -⟩ := Idiom.mem_targetAt hu
            exact Nat.not_lt.mpr (h.count_le ho) hheavy
          · exact hlight ho ⟨u, hu, hheavy⟩
      · exact Or.inr ⟨ho, ⟨u, List.mem_append_right _ hu, hheavy⟩, hstops⟩
    · have hout : out o d w (t :: (rest ++ behind)) =
          w.increment o >>= fun w => out o d w (rest ++ behind) := by
        rw [out, ht]
      rw [Idiom.targetsFrom_increment rest ht, Idiom.countP_moves_of_increment rest ht,
        List.cons_append, hout]
      rcases h.increment_cases hone with ⟨w', hw', hfits, htargets, hpassed⟩ | ⟨ho, hlt, hcrash⟩
      · rw [hw']
        have hgoes := ih hrest hfits (by rw [hpassed]; omega)
        rw [htargets, hpassed, Nat.add_assoc, Nat.add_comm 1] at hgoes
        exact hgoes
      · refine Or.inr ⟨ho, ?_, ?_⟩
        · obtain ⟨u, hu, hle⟩ := Idiom.exists_target_of_count hrest depth
            (Nat.succ_pos count)
          exact ⟨u, hu, Nat.lt_of_lt_of_le hlt hle⟩
        · rw [hcrash]
          rfl

/-- A move the other way ends the way out, and what was counted last becomes a target. -/
theorem out_turn {t : Token} (rest : List Token) (ht : t.command = .move d.opposite)
    (h : w.Fits o d depth count) :
    out o d w (t :: rest) = .ok (some (⟨w.depth, 0, w.added d depth, w.passed⟩, t :: rest)) := by
  have hother : d.opposite ≠ d := by cases d <;> simp [Direction.opposite]
  rw [out, ht]
  show (w.settle o >>= fun w => if d.opposite = d then _ else pure (some (w, t :: rest))) = _
  rw [h.settle_eq]
  exact if_neg hother

/-- Any other command breaks the walk off. -/
theorem out_none {t : Token} (rest : List Token) (hmove : ∀ toward, t.command ≠ .move toward)
    (hincrement : t.command ≠ .increment) : out o d w (t :: rest) = .ok none := by
  obtain ⟨c, offset⟩ := t
  cases c with
  | move toward => exact absurd rfl (hmove toward)
  | increment => exact absurd rfl hincrement
  | _ => rw [out]; rfl

/-! ## The way back -/

/-- The way back leads over moves in its direction. -/
theorem back_append {tokens : List Token} (hmoves : ∀ t ∈ tokens, Idiom.moves d t)
    (behind : List Token) (hdepth : w.depth.natAbs ≤ w.passed)
    (hroom : ((w.passed + tokens.length : Nat) : Int) ≤ greatestPosition) :
    back o d w (tokens ++ behind) = back o d ⟨w.depth + d.unit * tokens.length, w.count, w.targets,
      w.passed + tokens.length⟩ behind := by
  induction tokens generalizing w with
  | nil =>
    rw [List.nil_append, List.length_nil, Nat.add_zero, Int.natCast_zero, Int.mul_zero,
      Int.add_zero]
  | cons t rest ih =>
    have ht : t.command = .move d := of_decide_eq_true (hmoves t List.mem_cons_self)
    rw [List.length_cons] at hroom
    have hone : (w.depth + d.unit).natAbs ≤ w.passed + 1 := by
      cases d <;> simp only [Direction.unit] <;> omega
    rw [List.cons_append, back, if_pos ht]
    show (w.move o d >>= fun w => back o d w (rest ++ behind)) = _
    rw [move_eq hone (by omega)]
    show back o d _ (rest ++ behind) = _
    rw [ih (fun t ht => hmoves t (List.mem_cons_of_mem _ ht)) hone
      (by show ((w.passed + 1 + _ : Nat) : Int) ≤ _; omega), List.length_cons]
    congr 2
    · cases d <;> simp only [Direction.unit] <;> omega
    · show w.passed + 1 + _ = _
      omega

theorem back_stop {t : Token} (rest : List Token) (ht : t.command ≠ .move d) :
    back o d w (t :: rest) = .ok (some (w, t :: rest)) := if_neg ht

end Walk

/-! ## The idioms -/

namespace Idiom

/-- A walk that is made of moves adds nothing. -/
theorem targetsFrom_of_moves {walk : List Token} (h : ∀ t ∈ walk, moves d t) (depth : Nat) :
    targetsFrom d depth 0 walk = [] := by
  induction walk generalizing depth with
  | nil => rfl
  | cons t rest ih =>
    have ht : t.command = .move d := of_decide_eq_true (h t List.mem_cons_self)
    rw [targetsFrom_move rest ht, ih fun t ht => h t (List.mem_cons_of_mem _ ht)]
    rfl

/-- A walk adds something exactly if not all of its tokens are moves. -/
theorem targets_ne_nil_iff {walk : List Token} (hwalk : ∀ t ∈ walk, outbound d t) :
    targets d walk ≠ [] ↔ walk.countP (moves d) < walk.length := by
  constructor
  · intro hne
    rcases Nat.lt_or_eq_of_le (List.countP_le_length (p := moves d) (l := walk)) with h | h
    · exact h
    · have hmoves : ∀ t ∈ walk, moves d t := List.countP_eq_length.mp h
      rw [← joined_targetsFrom, targetsFrom_of_moves hmoves, joined_nil] at hne
      exact absurd rfl hne
  · intro h
    exact targets_ne_nil hwalk (exists_increment hwalk h)

/-- The idiom as half words hold its factors. A copying loop of which nothing is left is none. -/
def held? (i : Idiom) : Option Idiom :=
  match i.effect with
  | .copy targets =>
    if heldTargets targets = [] then none else some ⟨.copy (heldTargets targets), i.length⟩
  | _ => some i

theorem held?_copy (targets : List Target) (length : Nat) :
    held? ⟨.copy targets, length⟩ =
      if heldTargets targets = [] then none else some ⟨.copy (heldTargets targets), length⟩ :=
  rfl

/-- The idiom of a walk and the moves behind it that stand in front of the given tokens. -/
def closed? (d : Direction) (walk back : List Token) : List Token → Option Idiom
  | ⟨.endLoop, _⟩ :: _ =>
    if back.length = walk.countP (moves d) ∧ back.length < walk.length then
      some ⟨.copy (targets d walk), 2 + walk.length + back.length + 1⟩
    else none
  | _ => none

/-- A walk cannot be closed where it has not turned. -/
theorem closed?_of_no_moves_back {walk : List Token} (ahead : List Token)
    (hmoves : 0 < walk.countP (moves d)) : closed? d walk [] ahead = none := by
  unfold closed?
  split
  · exact if_neg fun h => absurd h.1 (Nat.ne_of_lt hmoves)
  · rfl

/-- A walk that has come back over its moves to the given tokens is closed by them, or not. -/
theorem idiom?_eq {w : Walk} {walk back : List Token} (ahead : List Token)
    (hwalk : ∀ t ∈ walk, outbound d t)
    (hdepth : w.depth = d.unit * walk.countP (moves d) + d.opposite.unit * back.length)
    (htargets : w.targets = heldTargets (targets d walk))
    (hpassed : w.passed = 2 + walk.length + back.length)
    (hroom : ((w.passed + 1 : Nat) : Int) ≤ greatestPosition) :
    w.idiom? o ahead = .ok ((closed? d walk back ahead).bind held?) := by
  have hback : w.depth = 0 ↔ back.length = walk.countP (moves d) := by
    rw [hdepth]
    cases d <;> simp only [Direction.unit, Direction.opposite] <;> omega
  cases ahead with
  | nil => rfl
  | cons t more =>
    obtain ⟨c, offset⟩ := t
    cases c with
    | endLoop =>
      rw [Walk.idiom?, closed?, htargets, o.held_word_of_le hroom, hpassed]
      by_cases hcame : back.length = walk.countP (moves d)
      · by_cases hleft : heldTargets (targets d walk) = []
        · rw [if_neg fun h => h.2 hleft]
          split
          · rw [Option.bind_some, held?_copy, if_pos hleft]
            rfl
          · rfl
        · -- what is held of some targets is held of something
          have hadds : targets d walk ≠ [] := fun hnone => hleft (by rw [hnone]; rfl)
          rw [targets_ne_nil_iff hwalk, ← hcame] at hadds
          rw [if_pos ⟨hback.mpr hcame, hleft⟩, if_pos ⟨hcame, hadds⟩, Option.bind_some, held?_copy,
            if_neg hleft]
          rfl
      · rw [if_neg fun h => hcame (hback.mp h.1), if_neg fun h => hcame h.1]
        rfl
    | _ => rfl

/-- Behind a walk that has turned, the moves back are what closes it or does not. -/
theorem close?_eq {w : Walk} {walk : List Token} (behind : List Token)
    (hwalk : ∀ t ∈ walk, outbound d t) (hdepth : w.depth = d.unit * walk.countP (moves d))
    (htargets : w.targets = heldTargets (targets d walk)) (hpassed : w.passed = 2 + walk.length)
    (hroom : ((w.passed + behind.length : Nat) : Int) ≤ greatestPosition) :
    w.close? o d behind = .ok ((closed? d walk (behind.takeWhile (moves d.opposite))
      (behind.dropWhile (moves d.opposite))).bind held?) := by
  have hback : ∀ t ∈ behind.takeWhile (moves d.opposite), moves d.opposite t :=
    List.all_eq_true.mp List.all_takeWhile
  have hstop := List.head?_dropWhile_not (moves d.opposite) behind
  have hbehind := List.takeWhile_append_dropWhile (p := moves d.opposite) (l := behind)
  generalize behind.takeWhile (moves d.opposite) = back at hback hbehind ⊢
  generalize behind.dropWhile (moves d.opposite) = ahead at hstop hbehind ⊢
  subst hbehind
  have hdistance : w.depth.natAbs ≤ w.passed := by
    have := List.countP_le_length (p := moves d) (l := walk)
    rw [hdepth, hpassed]
    cases d <;> simp only [Direction.unit] <;> omega
  rw [List.length_append] at hroom
  unfold Walk.close?
  rw [Walk.back_append hback ahead hdistance (by omega)]
  cases ahead with
  | nil => rfl
  | cons t more =>
    have ht : t.command ≠ .move d.opposite := of_decide_eq_false hstop
    rw [List.length_cons] at hroom
    rw [Walk.back_stop more ht]
    refine idiom?_eq (t :: more) hwalk ?_ htargets ?_ ?_
    · show w.depth + _ = _
      rw [hdepth]
    · show w.passed + _ = _
      rw [hpassed]
    · show ((w.passed + _ + 1 : Nat) : Int) ≤ _
      omega

/-- Where the walk ends, it turns or is given up. -/
theorem copyAlongInWords?_append {walk behind : List Token} (hwalk : ∀ t ∈ walk, outbound d t)
    (hbehind : ∀ t ∈ behind.head?, outbound d t = false) (hmoves : 0 < walk.countP (moves d))
    (hroom : ((2 + (walk ++ behind).length : Nat) : Int) ≤ greatestPosition) :
    (copyAlongInWords? o d (walk ++ behind) = .ok ((closed? d walk
      (behind.takeWhile (moves d.opposite)) (behind.dropWhile (moves d.opposite))).bind held?) ∧
      (o = .crashes → ¬Heavy (targetsFrom d 0 0 walk))) ∨
    o = .crashes ∧ Heavy (targetsFrom d 0 0 walk) ∧
      copyAlongInWords? o d (walk ++ behind) = .error .overflow := by
  have hstart : Walk.start.Fits o d 0 0 :=
    ⟨(Int.mul_zero _).symm, Nat.zero_le _, rfl, fun _ => Nat.zero_le _,
      fun _ ht => absurd ht List.not_mem_nil⟩
  rw [List.length_append] at hroom
  unfold copyAlongInWords?
  rcases Walk.out_append_cases hwalk behind hstart
      (by show ((2 + _ : Nat) : Int) ≤ _; omega) with
    ⟨w, count, hw, hpassed, hadded, hout, hlight⟩ | ⟨ho, hheavy, hout⟩
  · refine Or.inl ⟨?_, hlight⟩
    rw [Nat.zero_add] at hw hadded
    replace hpassed : w.passed = 2 + walk.length := hpassed
    replace hadded : w.added d (walk.countP (moves d)) = heldTargets (targets d walk) := by
      rw [← joined_targetsFrom, ← joined_heldTargets]
      exact hadded
    rw [hout]
    cases behind with
    | nil => rfl
    | cons t more =>
      have hother := hbehind t rfl
      rw [← Bool.not_eq_true, outbound_iff, not_or] at hother
      by_cases hturn : t.command = .move d.opposite
      · rw [Walk.out_turn more hturn hw]
        exact close?_eq (t :: more) hwalk hw.depth_eq hadded hpassed
          (by show ((w.passed + _ : Nat) : Int) ≤ _; omega)
      · have hmove : ∀ toward, t.command ≠ .move toward := by
          intro toward
          rcases toward.eq_or_eq_opposite d with rfl | rfl
          · exact hother.1
          · exact hturn
        have hnone : ¬moves d.opposite t := fun h => hturn (of_decide_eq_true h)
        rw [Walk.out_none more hmove hother.2, List.takeWhile_cons_of_neg hnone,
          List.dropWhile_cons_of_neg hnone, closed?_of_no_moves_back _ hmoves]
        rfl
  · refine Or.inr ⟨ho, hheavy, ?_⟩
    rw [hout]
    rfl

theorem copyAlongInWords?_cases {first : Token} {rest : List Token}
    (hfirst : first.command = .move d)
    (hroom : ((2 + (first :: rest).length : Nat) : Int) ≤ greatestPosition) :
    (copyAlongInWords? o d (first :: rest) = .ok ((copyAlong? d (first :: rest)).bind held?) ∧
      (o = .crashes → ¬Heavy (targetsFrom d 0 0 ((first :: rest).takeWhile (outbound d))))) ∨
    o = .crashes ∧ Heavy (targetsFrom d 0 0 ((first :: rest).takeWhile (outbound d))) ∧
      copyAlongInWords? o d (first :: rest) = .error .overflow := by
  have hsplit := List.takeWhile_append_dropWhile (p := outbound d) (l := first :: rest)
  have hmoves : 0 < ((first :: rest).takeWhile (outbound d)).countP (moves d) := by
    rw [List.takeWhile_cons_of_pos (outbound_iff.mpr (Or.inl hfirst)),
      countP_moves_of_move _ hfirst]
    exact Nat.succ_pos _
  have hbehind : ∀ t ∈ ((first :: rest).dropWhile (outbound d)).head?, outbound d t = false := by
    have hstop := List.head?_dropWhile_not (outbound d) (first :: rest)
    intro t ht
    rw [ht] at hstop
    exact hstop
  have happend := copyAlongInWords?_append (o := o) (List.all_eq_true.mp List.all_takeWhile)
    hbehind hmoves (hsplit.symm ▸ hroom)
  rw [hsplit] at happend
  exact happend

end Idiom

end Brainfuck
