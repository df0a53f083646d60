import Brainfuck.Proofs.Stretch
import Mathlib.Data.List.Pairwise
import Mathlib.Data.List.Sort

/-!
# The grammar of loop idioms

`Idiom.Shape text effect` says which rows of commands are idioms and what each of them does, without
a word about how one looks for them. A copying loop goes out along a walk, which is a row of moves
one way and of increments, and comes back in as many moves as the walk has. What it adds at a depth
is the number of increments that stand behind so many moves of the walk (`Idiom.addedAt`).

Main result: `Idiom.recognize?_exact`. The recognisers find what has a shape and nothing else, they
find the whole of it, and no two of them find anything in the same tokens.

Each recogniser has its equivalence (`clear?_eq_some_iff`, `scan?_eq_some_iff`,
`copy?_eq_some_iff`). For the copying loop one direction is `copyAlong?_eq_some`, which reads the
loop off the two passes of the recogniser; the other, `copyAlong?_append`, says where each pass
stops. The targets are compared by what they say about each depth (`mem_targetsFrom_iff`), since the
two passes count what the grammar tells by positions.
-/

namespace Brainfuck

namespace Idiom

/-- The text of a copying loop: `[-`, the walk, as many moves back as the walk has, and `]`. -/
def copyText (d : Direction) (walk : List Command) : List Command :=
  [.beginLoop, .decrement] ++ walk ++
    List.replicate (walk.count (.move d)) (.move d.opposite) ++ [.endLoop]

/-- How many increments of the walk stand behind exactly `depth` moves of it. -/
def addedAt (d : Direction) (walk : List Command) (depth : Nat) : Nat :=
  (List.range walk.length).countP fun i =>
    walk[i]? = some .increment ∧ (walk.take i).count (.move d) = depth

/-- The rows of commands that are idioms, with what they do. -/
inductive Shape : List Command → Effect → Prop
  /-- `[-]` -/
  | clearDown : Shape [.beginLoop, .decrement, .endLoop] .clear
  /-- `[+]` -/
  | clearUp : Shape [.beginLoop, .increment, .endLoop] .clear
  /-- `[>]` or `[<]` -/
  | scan (d : Direction) : Shape [.beginLoop, .move d, .endLoop] (.scan d)
  /-- A loop whose walk starts with a move, and adds somewhere. There is one target for each depth
  at which it adds, and they come in the order of their places. -/
  | copy {d : Direction} {walk : List Command} {targets : List Target}
      (hfirst : walk.head? = some (.move d)) (hwalk : ∀ c ∈ walk, c = .move d ∨ c = .increment)
      (hadds : .increment ∈ walk)
      (htargets : ∀ t, t ∈ targets ↔ ∃ depth : Nat, 1 ≤ depth ∧ t.offset = d.unit * depth ∧
        t.factor = addedAt d walk depth ∧ 0 < addedAt d walk depth)
      (hordered : targets.Pairwise fun s t => s.offset < t.offset) :
      Shape (copyText d walk) (.copy targets)

/-! ## What a walk adds at a depth -/

@[simp] theorem addedAt_nil (d : Direction) (depth : Nat) : addedAt d [] depth = 0 := rfl

theorem addedAt_cons (d : Direction) (c : Command) (walk : List Command) (depth : Nat) :
    addedAt d (c :: walk) depth = (if c = .increment ∧ depth = 0 then 1 else 0) +
      (List.range walk.length).countP fun i =>
        walk[i]? = some .increment ∧ (c :: walk.take i).count (.move d) = depth := by
  rw [addedAt, List.length_cons, List.range_succ_eq_map, List.countP_cons, List.countP_map,
    Nat.add_comm]
  congr 1
  simp [@eq_comm _ 0 depth]

/-- An increment adds one where the walk is. -/
theorem addedAt_increment (d : Direction) (walk : List Command) (depth : Nat) :
    addedAt d (.increment :: walk) depth = (if depth = 0 then 1 else 0) + addedAt d walk depth := by
  rw [addedAt_cons, addedAt]
  simp

/-- Behind a move, nothing is added where the walk starts. -/
theorem addedAt_move_zero (d : Direction) (walk : List Command) :
    addedAt d (.move d :: walk) 0 = 0 := by
  rw [addedAt_cons]
  simp

/-- Behind a move, all depths are one less. -/
theorem addedAt_move_succ (d : Direction) (walk : List Command) (depth : Nat) :
    addedAt d (.move d :: walk) (depth + 1) = addedAt d walk depth := by
  rw [addedAt_cons, addedAt]
  simp

theorem mem_targetAt_iff {d : Direction} {depth count : Nat} {t : Target} :
    t ∈ targetAt d depth count ↔ t.offset = d.unit * depth ∧ t.factor = count ∧ 0 < t.factor := by
  unfold targetAt
  split
  · next hcount =>
    simp only [List.not_mem_nil, false_iff]
    omega
  · next hcount =>
    obtain ⟨offset, factor⟩ := t
    rw [List.mem_singleton, Target.mk.injEq]
    refine and_congr_right fun _ => ⟨fun h => ⟨h, ?_⟩, And.left⟩
    show 0 < factor
    omega

/-- The targets that a walk leaves from some depth on, told depth by depth. -/
theorem mem_targetsFrom_iff {d : Direction} {walk : List Token} (hwalk : ∀ t ∈ walk, outbound d t)
    {depth count : Nat} {t : Target} :
    t ∈ targetsFrom d depth count walk ↔ ∃ more : Nat, t.offset = d.unit * (depth + more : Nat) ∧
      t.factor = (if more = 0 then count else 0) + addedAt d (walk.map (·.command)) more ∧
      0 < t.factor := by
  induction walk generalizing depth count with
  | nil =>
    rw [targetsFrom, mem_targetAt_iff, List.map_nil]
    refine ⟨fun h => ⟨0, h⟩, ?_⟩
    rintro ⟨more, hoffset, hfactor, hpos⟩
    rw [addedAt_nil, Nat.add_zero] at hfactor
    cases more with
    | zero => exact ⟨hoffset, hfactor, hpos⟩
    | succ more =>
      rw [hfactor] at hpos
      exact absurd hpos (Nat.lt_irrefl 0)
  | cons token rest ih =>
    have hrest := fun t ht => hwalk t (List.mem_cons_of_mem token ht)
    rw [List.map_cons]
    rcases outbound_iff.mp (hwalk token List.mem_cons_self) with hmove | hincrement
    · -- what has been counted stays behind, and all that follows is one deeper
      rw [targetsFrom_move rest hmove, hmove, List.mem_append, mem_targetAt_iff, ih hrest]
      refine Iff.trans (or_congr ?_ (exists_congr fun more => ?_)) Nat.or_exists_add_one
      · rw [if_pos rfl, addedAt_move_zero, Nat.add_zero, Nat.add_zero]
      · rw [ite_self, if_neg (Nat.succ_ne_zero more), addedAt_move_succ, Nat.add_assoc depth,
          Nat.add_comm 1 more]
    · rw [targetsFrom_increment rest hincrement, hincrement, ih hrest]
      refine exists_congr fun more => ?_
      rw [addedAt_increment]
      split <;> simp only [Nat.zero_add, Nat.add_assoc]

/-- The targets of a copying loop, told depth by depth. -/
theorem mem_targets_iff_addedAt {d : Direction} {first : Token} {rest : List Token}
    (hfirst : first.command = .move d) (hrest : ∀ t ∈ rest, outbound d t) {t : Target} :
    t ∈ targets d (first :: rest) ↔ ∃ depth : Nat, 1 ≤ depth ∧ t.offset = d.unit * depth ∧
      t.factor = addedAt d ((first :: rest).map (·.command)) depth ∧
      0 < addedAt d ((first :: rest).map (·.command)) depth := by
  rw [mem_targets_iff, mem_targetsFrom_iff (forall_outbound hfirst hrest)]
  refine exists_congr fun depth => ?_
  rw [Nat.zero_add, ite_self, Nat.zero_add]
  constructor
  · rintro ⟨hoffset, hfactor, hpos⟩
    rw [hfactor] at hpos
    refine ⟨Nat.one_le_iff_ne_zero.mpr ?_, hoffset, hfactor, hpos⟩
    -- nothing is added in front of the first move
    rintro rfl
    rw [List.map_cons, hfirst, addedAt_move_zero] at hpos
    exact absurd hpos (Nat.lt_irrefl 0)
  · rintro ⟨-, hoffset, hfactor, hpos⟩
    exact ⟨hoffset, hfactor, hfactor ▸ hpos⟩

/-! ## What each recogniser finds -/

/-- The tokens start with the text of the idiom, and with nothing more of it. -/
def Heads (tokens : List Token) (i : Idiom) : Prop :=
  ∃ text, text <+: tokens.map (·.command) ∧ Shape text i.effect ∧ i.length = text.length

theorem exists_tokens_of_prefix {tokens : List Token} {text : List Command}
    (h : text <+: tokens.map (·.command)) :
    ∃ front behind, tokens = front ++ behind ∧ front.map (·.command) = text := by
  obtain ⟨more, hmore⟩ := h
  obtain ⟨front, behind, rfl, hfront, -⟩ := List.map_eq_append_iff.mp hmore.symm
  exact ⟨front, behind, rfl, hfront⟩

theorem exists_tokens_of_three {tokens : List Token} {a b c : Command}
    (h : [a, b, c] <+: tokens.map (·.command)) :
    ∃ x y z rest, tokens = ⟨a, x⟩ :: ⟨b, y⟩ :: ⟨c, z⟩ :: rest := by
  obtain ⟨front, behind, rfl, hfront⟩ := exists_tokens_of_prefix h
  simp only [List.map_eq_cons_iff, List.map_eq_nil_iff] at hfront
  obtain ⟨⟨_, x⟩, _, rfl, rfl, ⟨_, y⟩, _, rfl, rfl, ⟨_, z⟩, _, rfl, rfl, rfl⟩ := hfront
  exact ⟨x, y, z, behind, rfl⟩

theorem clear?_eq_some_iff {tokens : List Token} {i : Idiom} :
    clear? tokens = some i ↔ Heads tokens i ∧ i.effect = .clear := by
  constructor
  · intro h
    unfold clear? at h
    split at h
    · cases h
      exact ⟨⟨_, ⟨_, rfl⟩, .clearDown, rfl⟩, rfl⟩
    · cases h
      exact ⟨⟨_, ⟨_, rfl⟩, .clearUp, rfl⟩, rfl⟩
    · cases h
  · obtain ⟨effect, length⟩ := i
    rintro ⟨⟨text, hprefix, hshape, hlength⟩, heffect⟩
    cases heffect
    cases hlength
    cases hshape with
    | clearDown =>
      obtain ⟨x, y, z, rest, rfl⟩ := exists_tokens_of_three hprefix
      rfl
    | clearUp =>
      obtain ⟨x, y, z, rest, rfl⟩ := exists_tokens_of_three hprefix
      rfl

theorem scan?_eq_some_iff {tokens : List Token} {i : Idiom} :
    scan? tokens = some i ↔ Heads tokens i ∧ ∃ d, i.effect = .scan d := by
  constructor
  · intro h
    unfold scan? at h
    split at h
    · cases h
      exact ⟨⟨_, ⟨_, rfl⟩, .scan _, rfl⟩, _, rfl⟩
    · cases h
  · obtain ⟨effect, length⟩ := i
    rintro ⟨⟨text, hprefix, hshape, hlength⟩, d, heffect⟩
    cases heffect
    cases hlength
    cases hshape
    obtain ⟨x, y, z, rest, rfl⟩ := exists_tokens_of_three hprefix
    rfl

/-- The first pass over a copying loop stops behind its walk, and the second in front of its `]`. -/
theorem copyAlong?_append {d : Direction} {walk back : List Token} {closing : Token}
    (tail : List Token) (hwalk : ∀ t ∈ walk, outbound d t)
    (hback : ∀ t ∈ back, moves d.opposite t)
    (hclosing : closing.command = .endLoop) (hlength : back.length = walk.countP (moves d))
    (hless : back.length < walk.length) :
    copyAlong? d (walk ++ (back ++ closing :: tail)) =
      some ⟨.copy (targets d walk), 2 + walk.length + back.length + 1⟩ := by
  obtain ⟨next, more, hnext, hstop⟩ : ∃ next more, back ++ closing :: tail = next :: more ∧
      ¬outbound d next := by
    cases back with
    | nil => exact ⟨closing, tail, rfl, by rw [outbound_iff, hclosing]; simp⟩
    | cons first back =>
      refine ⟨first, back ++ closing :: tail, rfl, ?_⟩
      have hfirst : first.command = .move d.opposite :=
        of_decide_eq_true (hback first List.mem_cons_self)
      rw [outbound_iff, hfirst]
      cases d <;> simp [Direction.opposite]
  have hend : ¬moves d.opposite closing := by simp [moves, hclosing]
  have hout : (walk ++ (back ++ closing :: tail)).takeWhile (outbound d) = walk := by
    rw [List.takeWhile_append_of_pos hwalk, hnext, List.takeWhile_cons_of_neg hstop,
      List.append_nil]
  have hbehind : (walk ++ (back ++ closing :: tail)).dropWhile (outbound d) =
      back ++ closing :: tail := by
    rw [List.dropWhile_append_of_pos hwalk, hnext, List.dropWhile_cons_of_neg hstop]
  have htake : (back ++ closing :: tail).takeWhile (moves d.opposite) = back := by
    rw [List.takeWhile_append_of_pos hback, List.takeWhile_cons_of_neg hend, List.append_nil]
  have hdrop : (back ++ closing :: tail).dropWhile (moves d.opposite) = closing :: tail := by
    rw [List.dropWhile_append_of_pos hback, List.dropWhile_cons_of_neg hend]
  obtain ⟨_, offset⟩ := closing
  cases hclosing
  simp only [copyAlong?, hout, hbehind, htake, hdrop, if_pos (And.intro hlength hless)]

/-- The walk of a loop, seen as tokens, has as many moves as the walk has. -/
theorem countP_moves (d : Direction) (walk : List Token) :
    walk.countP (moves d) = (walk.map (·.command)).count (.move d) := by
  rw [List.count, List.countP_map]
  congr 1

theorem copyCommands_eq_copyText (d : Direction) (walk : List Token) :
    copyCommands d walk = copyText d (walk.map (·.command)) := by
  rw [copyCommands, copyText, countP_moves]

/-- Rows of targets that come in the order of their places are the same if they have the same
targets. -/
theorem eq_of_mem_iff_of_ordered {ts us : List Target}
    (hts : ts.Pairwise fun s t => s.offset < t.offset)
    (hus : us.Pairwise fun s t => s.offset < t.offset) (h : ∀ t, t ∈ ts ↔ t ∈ us) : ts = us := by
  have hirrefl : Std.Irrefl fun s t : Target => s.offset < t.offset :=
    ⟨fun s => Int.lt_irrefl s.offset⟩
  have hantisymm : Std.Antisymm fun s t : Target => s.offset < t.offset :=
    ⟨fun s t hst hts => absurd hst (Int.lt_asymm hts)⟩
  exact hts.eq_of_mem_iff hus h

theorem copy?_eq_some_iff {tokens : List Token} {i : Idiom} :
    copy? tokens = some i ↔ Heads tokens i ∧ ∃ targets, i.effect = .copy targets := by
  constructor
  · intro h
    obtain ⟨d, first, rest, more, hfirst, hrest, ⟨t, ht, hadds⟩, htokens, rfl⟩ := copy?_eq_some h
    have hwalk := forall_outbound hfirst hrest
    refine ⟨⟨copyCommands d (first :: rest), ⟨more, htokens.symm⟩, ?_, rfl⟩, _, rfl⟩
    rw [copyCommands_eq_copyText]
    refine .copy ?_ ?_ ?_ (fun t => mem_targets_iff_addedAt hfirst hrest) (pairwise_targets hwalk)
    · rw [List.map_cons, hfirst]
      rfl
    · intro c hc
      obtain ⟨t, ht, rfl⟩ := List.mem_map.mp hc
      exact outbound_iff.mp (hwalk t ht)
    · exact List.mem_map.mpr ⟨t, List.mem_cons_of_mem first ht, hadds⟩
  · obtain ⟨effect, length⟩ := i
    rintro ⟨⟨text, hprefix, hshape, hlength⟩, targets, heffect⟩
    cases heffect
    cases hlength
    cases hshape with
    | @copy d commands _ hfirst hcommands hadds htargets hordered =>
      obtain ⟨front, tail, rfl, hfront⟩ := exists_tokens_of_prefix hprefix
      simp only [copyText, List.map_eq_append_iff, List.map_eq_cons_iff, List.map_eq_nil_iff]
        at hfront
      obtain ⟨_, _, rfl, ⟨_, back, rfl, ⟨_, walk, rfl, ⟨opening, _, rfl, hopening, down, _, rfl,
        hdown, rfl⟩, rfl⟩, hback⟩, closing, _, rfl, hclosing, rfl⟩ := hfront
      cases walk with
      | nil => cases hfirst
      | cons first rest =>
        have hfirst : first.command = .move d := by simpa using hfirst
        have hwalk : ∀ t ∈ first :: rest, outbound d t := fun t ht =>
          outbound_iff.mpr (hcommands _ (List.mem_map_of_mem ht))
        have hmoves : ∀ t ∈ back, moves d.opposite t := by
          intro t ht
          have hmem : t.command ∈ back.map (·.command) := List.mem_map_of_mem ht
          rw [hback] at hmem
          exact decide_eq_true (List.eq_of_mem_replicate hmem)
        have hlength : back.length = (first :: rest).countP (moves d) := by
          have := congrArg List.length hback
          rwa [List.length_map, List.length_replicate, ← countP_moves] at this
        have hless : back.length < (first :: rest).length := by
          obtain ⟨t, ht, hincrement⟩ := List.mem_map.mp hadds
          have hstays : ¬moves d t := by simp [moves, hincrement]
          rw [hlength]
          exact Nat.lt_of_le_of_ne List.countP_le_length fun h =>
            hstays (List.countP_eq_length.mp h t ht)
        have htargets : Idiom.targets d (first :: rest) = targets := by
          refine eq_of_mem_iff_of_ordered (pairwise_targets hwalk) hordered fun t => ?_
          rw [htargets, mem_targets_iff_addedAt hfirst
            fun t ht => hwalk t (List.mem_cons_of_mem first ht)]
        rw [← copyCommands_eq_copyText, length_copyCommands, ← hlength, ← htargets,
          ← copyAlong?_append tail hwalk hmoves hclosing hlength hless]
        obtain ⟨_, x⟩ := opening
        obtain ⟨_, y⟩ := down
        obtain ⟨_, z⟩ := first
        cases hopening
        cases hdown
        cases hfirst
        simp only [List.append_assoc, List.cons_append, List.nil_append]
        rfl

/-! ## What is recognised -/

theorem alone_of_clear? {tokens : List Token} {i : Idiom} (h : clear? tokens = some i) :
    copy? tokens = none ∧ scan? tokens = none := by
  unfold clear? at h
  split at h
  · exact ⟨rfl, rfl⟩
  · exact ⟨rfl, rfl⟩
  · cases h

theorem alone_of_scan? {tokens : List Token} {i : Idiom} (h : scan? tokens = some i) :
    clear? tokens = none ∧ copy? tokens = none := by
  unfold scan? at h
  split at h
  · exact ⟨rfl, rfl⟩
  · cases h

/-- An idiom is recognised exactly where its text stands. -/
theorem recognize?_eq_some_iff {tokens : List Token} {i : Idiom} :
    recognize? tokens = some i ↔ Heads tokens i := by
  simp only [recognize?, Option.orElse_eq_orElse, Option.orElse_eq_or, Option.or_eq_some_iff]
  constructor
  · rintro (h | ⟨-, h | ⟨-, h⟩⟩)
    · exact (clear?_eq_some_iff.mp h).1
    · exact (copy?_eq_some_iff.mp h).1
    · exact (scan?_eq_some_iff.mp h).1
  · intro h
    obtain ⟨text, -, hshape, -⟩ := id h
    generalize heffect : i.effect = effect at hshape
    cases hshape with
    | clearDown => exact Or.inl (clear?_eq_some_iff.mpr ⟨h, heffect⟩)
    | clearUp => exact Or.inl (clear?_eq_some_iff.mpr ⟨h, heffect⟩)
    | scan d =>
      have hscan := scan?_eq_some_iff.mpr ⟨h, d, heffect⟩
      obtain ⟨hclear, hcopy⟩ := alone_of_scan? hscan
      exact Or.inr ⟨hclear, Or.inr ⟨hcopy, hscan⟩⟩
    | copy =>
      have hcopy := copy?_eq_some_iff.mpr ⟨h, _, heffect⟩
      refine Or.inr ⟨?_, Or.inl hcopy⟩
      by_contra hclear
      obtain ⟨j, hj⟩ := Option.ne_none_iff_exists'.mp hclear
      rw [(alone_of_clear? hj).1] at hcopy
      cases hcopy

/-- Where the tokens stand in their text does not matter. -/
theorem recognize?_congr {tokens tokens' : List Token}
    (h : tokens.map (·.command) = tokens'.map (·.command)) :
    recognize? tokens = recognize? tokens' := by
  apply Option.ext
  intro i
  rw [recognize?_eq_some_iff, recognize?_eq_some_iff, Heads, Heads, h]

/-- The three recognisers, in the order in which they are tried. -/
def recognizers : List (List Token → Option Idiom) := [clear?, copy?, scan?]

theorem recognize?_of_mem {r : List Token → Option Idiom} (hr : r ∈ recognizers)
    {tokens : List Token} {i : Idiom} (h : r tokens = some i) : recognize? tokens = some i := by
  rw [recognize?_eq_some_iff]
  simp only [recognizers, List.mem_cons, List.not_mem_nil, or_false] at hr
  rcases hr with rfl | rfl | rfl
  · exact (clear?_eq_some_iff.mp h).1
  · exact (copy?_eq_some_iff.mp h).1
  · exact (scan?_eq_some_iff.mp h).1

theorem recognize?_eq_findSome? (tokens : List Token) :
    recognizers.findSome? (· tokens) = recognize? tokens := by
  simp only [recognizers, recognize?, List.findSome?_cons, List.findSome?_nil,
    Option.orElse_eq_orElse, Option.orElse_eq_or]
  cases clear? tokens with
  | some i => rfl
  | none =>
    cases copy? tokens with
    | some i => rfl
    | none =>
      cases scan? tokens with
      | some i => rfl
      | none => rfl

theorem countP_recognizers_le (tokens : List Token) :
    recognizers.countP (fun r => (r tokens).isSome) ≤ 1 := by
  simp only [recognizers, List.countP_cons, List.countP_nil]
  cases hclear : clear? tokens with
  | some i =>
    obtain ⟨hcopy, hscan⟩ := alone_of_clear? hclear
    simp [hcopy, hscan]
  | none =>
    cases hscan : scan? tokens with
    | some i =>
      simp [(alone_of_scan? hscan).2]
    | none => cases copy? tokens <;> simp

/-- Whatever the order in which the recognisers are tried, the outcome is the same. -/
theorem findSome?_of_perm {order : List (List Token → Option Idiom)}
    (horder : order.Perm recognizers) (tokens : List Token) :
    order.findSome? (· tokens) = recognize? tokens := by
  cases h : order.findSome? (· tokens) with
  | some i =>
    obtain ⟨r, hr, hi⟩ := List.exists_of_findSome?_eq_some h
    exact (recognize?_of_mem (horder.mem_iff.mp hr) hi).symm
  | none =>
    rw [← recognize?_eq_findSome?, eq_comm, List.findSome?_eq_none_iff]
    intro r hr
    exact List.findSome?_eq_none_iff.mp h r (horder.mem_iff.mpr hr)

/-- **The recognisers accept exactly their grammar.** Whatever the tokens, balanced or not, an idiom
is found if and only if some front part of their commands has a shape. The opcode then carries the
given move and does what the shape says, and the front part, which is the only one that has a shape,
is taken up as a whole. At most one recogniser finds anything, so their order does not matter. -/
theorem recognize?_exact (tokens : List Token) (move : Int) :
    (∀ opcode consumed,
      (recognize? tokens).map (fun i => (i.opcode move, i.length)) = some (opcode, consumed) ↔
        ∃ text effect, text <+: tokens.map (·.command) ∧ Shape text effect ∧
          opcode = ⟨move, .perform effect⟩ ∧ consumed = text.length) ∧
    (∀ text text' effect effect',
      text <+: tokens.map (·.command) → text' <+: tokens.map (·.command) →
        Shape text effect → Shape text' effect' → text = text' ∧ effect = effect') ∧
    [clear?, copy?, scan?].countP (fun r => (r tokens).isSome) ≤ 1 ∧
    ∀ order : List (List Token → Option Idiom), order.Perm [clear?, copy?, scan?] →
      order.findSome? (· tokens) = recognize? tokens := by
  refine ⟨fun opcode consumed => ?_, fun text text' effect effect' htext htext' h h' => ?_,
    countP_recognizers_le tokens, fun order horder => findSome?_of_perm horder tokens⟩
  · rw [Option.map_eq_some_iff]
    constructor
    · rintro ⟨i, hi, heq⟩
      obtain ⟨text, htext, hshape, hlength⟩ := recognize?_eq_some_iff.mp hi
      cases heq
      exact ⟨text, i.effect, htext, hshape, rfl, hlength⟩
    · rintro ⟨text, effect, htext, hshape, rfl, rfl⟩
      exact ⟨⟨effect, text.length⟩, recognize?_eq_some_iff.mpr ⟨text, htext, hshape, rfl⟩, rfl⟩
  · have hfound : recognize? tokens = some ⟨effect, text.length⟩ :=
      recognize?_eq_some_iff.mpr ⟨text, htext, h, rfl⟩
    have hfound' : recognize? tokens = some ⟨effect', text'.length⟩ :=
      recognize?_eq_some_iff.mpr ⟨text', htext', h', rfl⟩
    rw [hfound, Option.some.injEq, Idiom.mk.injEq] at hfound'
    refine ⟨?_, hfound'.1⟩
    -- front parts of one length are the same
    rw [List.prefix_iff_eq_take.mp htext, List.prefix_iff_eq_take.mp htext', hfound'.2]

end Idiom

namespace Phrase

/-- A phrase takes up no more tokens than there are. -/
theorem start_le (first : Token) (rest : List Token) : (start first rest).2 ≤ rest.length := by
  obtain ⟨command, offset⟩ := first
  cases command with
  | move d | read | write | endLoop => exact Nat.zero_le _
  | increment => exact (List.takeWhile_prefix _).length_le
  | decrement => exact (List.takeWhile_prefix _).length_le
  | beginLoop =>
    rw [start]
    dsimp only
    cases h : Idiom.recognize? (⟨.beginLoop, offset⟩ :: rest) with
    | none => exact Nat.zero_le _
    | some i =>
      obtain ⟨text, htext, -, hlength⟩ := Idiom.recognize?_eq_some_iff.mp h
      have hle := htext.length_le
      rw [List.length_map, List.length_cons, ← hlength] at hle
      show i.length - 1 ≤ rest.length
      omega

end Phrase

end Brainfuck
