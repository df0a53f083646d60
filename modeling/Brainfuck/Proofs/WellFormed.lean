import Brainfuck.Proofs.Assembly
import Brainfuck.Proofs.Stretch
import Brainfuck.Proofs.Targets

/-!
# Well-formed programs

What the machine relies on in a program, and every program that a text compiles to has
(`Program.wellFormed_of_compile`): the two ends of a loop name each other, loops lie beside or within
each other, counts are positive, and a copy has targets, all on one side of the copied cell.

Each opcode belongs to a phrase (`Program.exists_phrase`), and the opcodes of the two ends of a loop
are known from `Program.get?_loop`. So a loop among the opcodes is a loop among the phrases
(`Program.exists_of_beginLoop`, `Program.exists_of_endLoop`), and what is to be shown of two loops is
a matter of balanced rows.
-/

namespace Brainfuck

/-- The counts of an effect are positive, and its targets lie on one side, in order, and add
something each. -/
def Effect.WellFormed : Effect → Prop
  | add count | sub count => 1 ≤ count
  | copy targets =>
    targets ≠ [] ∧ ((∀ t ∈ targets, 0 < t.offset) ∨ ∀ t ∈ targets, t.offset < 0) ∧
      (∀ t ∈ targets, 1 ≤ t.factor) ∧ targets.Pairwise fun s t => s.offset < t.offset
  | clear | scan _ | read | write => True

namespace Program

/-- A loop of the program: the opcodes at `start` and `stop` are its two ends and name each other. -/
structure Loop (p : Program) (start stop : Nat) : Prop where
  start_lt_stop : start < stop
  beginLoop : ∃ move, p.get? start = some ⟨move, .beginLoop stop⟩
  endLoop : ∃ move, p.get? stop = some ⟨move, .endLoop start⟩

/-- What the machine relies on in a program. -/
structure WellFormed (p : Program) : Prop where
  /-- The start of a loop names the end of that loop. -/
  loop_of_beginLoop : ∀ index partner move,
    p.get? index = some ⟨move, .beginLoop partner⟩ → partner < p.size ∧ p.Loop index partner
  /-- The end of a loop names the start of that loop. -/
  loop_of_endLoop : ∀ index partner move,
    p.get? index = some ⟨move, .endLoop partner⟩ → p.Loop partner index
  /-- Two loops lie beside each other, or one lies strictly within the other. -/
  nested : ∀ start stop start' stop', p.Loop start stop → p.Loop start' stop' → start ≠ start' →
    stop < start' ∨ stop' < start ∨ (start < start' ∧ stop' < stop) ∨ (start' < start ∧ stop < stop')
  effects : ∀ index move effect,
    p.get? index = some ⟨move, .perform effect⟩ → effect.WellFormed

/-! ## Opcodes and their phrases -/

/-- The place of an opcode lies within the program. -/
theorem lt_size_of_get? {p : Program} {index : Nat} {opcode : Opcode}
    (h : p.get? index = some opcode) : index < p.size := by
  apply Nat.lt_of_not_le
  intro hge
  rw [get?_eq_none_iff.mpr hge] at h
  cases h

/-- A place in a program is that of a phrase. -/
theorem exists_phrase {phrases : List Phrase} {index : Nat} (h : index < opcodeCount phrases) :
    ∃ front phrase behind, phrases = front ++ phrase :: behind ∧ phrase.makesOpcode = true ∧
      opcodeCount front = index := by
  induction phrases generalizing index with
  | nil => cases h
  | cons phrase phrases ih =>
    rw [opcodeCount_cons] at h
    by_cases hmakes : phrase.makesOpcode = true
    · rw [if_pos hmakes] at h
      cases index with
      | zero => exact ⟨[], phrase, phrases, rfl, hmakes, rfl⟩
      | succ index =>
        obtain ⟨front, phrase', behind, rfl, hmakes', rfl⟩ := ih (Nat.lt_of_succ_lt_succ h)
        exact ⟨phrase :: front, phrase', behind, rfl, hmakes',
          opcodeCount_cons_of_makesOpcode hmakes front⟩
    · rw [if_neg hmakes] at h
      obtain ⟨front, phrase', behind, rfl, hmakes', rfl⟩ := ih h
      refine ⟨phrase :: front, phrase', behind, rfl, hmakes', ?_⟩
      rw [opcodeCount_cons, if_neg hmakes]
      rfl

/-- A loop of the phrases, from the phrase behind `front` to the one behind `body`. -/
structure LoopPhrases (phrases front body : List Phrase) : Prop where
  balanced : Balanced Phrase.bracket? body
  split : ∃ start stop behind,
    phrases = front ++ .beginLoop start :: (body ++ .endLoop stop :: behind)

section Phrases

variable {phrases : List Phrase} {p : Program} (hp : ofPhrases phrases = .ok p)
  (hbalanced : Balanced Phrase.bracket? phrases)

include hp in
/-- The two ends of a loop of the phrases are a loop of the program. -/
theorem LoopPhrases.loop {front body : List Phrase} (h : LoopPhrases phrases front body) :
    p.Loop (opcodeCount front) (opcodeCount front + 1 + opcodeCount body) := by
  obtain ⟨hbody, start, stop, behind, rfl⟩ := h
  obtain ⟨hstart, hstop⟩ := get?_loop hp hbody
  exact ⟨by omega, ⟨_, hstart⟩, ⟨_, hstop⟩⟩

include hp hbalanced in
/-- What an opcode is and where it stands is told by the phrases. -/
theorem get?_cases {index : Nat} {move : Int} {action : Action}
    (h : p.get? index = some ⟨move, action⟩) :
    (∃ front effect behind, phrases = front ++ .perform effect :: behind ∧
      index = opcodeCount front ∧ move = carried front ∧ action = .perform effect) ∨
    ∃ front body, LoopPhrases phrases front body ∧
      ((index = opcodeCount front ∧ move = carried front ∧
          action = .beginLoop (opcodeCount front + 1 + opcodeCount body)) ∨
        (index = opcodeCount front + 1 + opcodeCount body ∧ move = carried body ∧
          action = .endLoop (opcodeCount front))) := by
  have hindex : index < opcodeCount phrases := by
    rw [← size_of_ofPhrases hp]
    exact lt_size_of_get? h
  obtain ⟨front, phrase, behind, hphrases, hmakes, rfl⟩ := exists_phrase hindex
  cases phrase with
  | move d => cases hmakes
  | perform effect =>
    subst hphrases
    rw [get?_effect hp, Option.some.injEq, Opcode.mk.injEq] at h
    exact Or.inl ⟨front, effect, behind, rfl, rfl, h.1.symm, h.2.symm⟩
  | beginLoop start =>
    subst hphrases
    obtain ⟨body, y, behind, rfl, hy, hbody⟩ := hbalanced.exists_end rfl
    obtain ⟨stop, rfl⟩ := Phrase.exists_endLoop hy
    rw [(get?_loop hp hbody).1, Option.some.injEq, Opcode.mk.injEq] at h
    exact Or.inr ⟨front, body, ⟨hbody, start, stop, behind, rfl⟩,
      Or.inl ⟨rfl, h.1.symm, h.2.symm⟩⟩
  | endLoop stop =>
    subst hphrases
    obtain ⟨front, x, body, rfl, hx, hbody⟩ := hbalanced.exists_start rfl
    obtain ⟨start, rfl⟩ := Phrase.exists_beginLoop hx
    have hcount : opcodeCount (front ++ .beginLoop start :: body) =
        opcodeCount front + 1 + opcodeCount body := by
      rw [opcodeCount_append, opcodeCount_cons_of_makesOpcode rfl]
      omega
    rw [List.append_assoc, List.cons_append] at hp ⊢
    rw [hcount, (get?_loop hp hbody).2, Option.some.injEq, Opcode.mk.injEq] at h
    exact Or.inr ⟨front, body, ⟨hbody, start, stop, behind, rfl⟩,
      Or.inr ⟨hcount, h.1.symm, h.2.symm⟩⟩

include hp hbalanced in
theorem exists_of_beginLoop {index partner : Nat} {move : Int}
    (h : p.get? index = some ⟨move, .beginLoop partner⟩) :
    ∃ front body, LoopPhrases phrases front body ∧ index = opcodeCount front ∧
      partner = opcodeCount front + 1 + opcodeCount body := by
  rcases get?_cases hp hbalanced h with
    ⟨_, _, _, _, _, _, haction⟩ | ⟨front, body, hloop, ⟨hindex, -, haction⟩ | ⟨-, -, haction⟩⟩
  · cases haction
  · cases haction
    exact ⟨front, body, hloop, hindex, rfl⟩
  · cases haction

include hp hbalanced in
theorem exists_of_endLoop {index partner : Nat} {move : Int}
    (h : p.get? index = some ⟨move, .endLoop partner⟩) :
    ∃ front body, LoopPhrases phrases front body ∧ partner = opcodeCount front ∧
      index = opcodeCount front + 1 + opcodeCount body := by
  rcases get?_cases hp hbalanced h with
    ⟨_, _, _, _, _, _, haction⟩ | ⟨front, body, hloop, ⟨-, -, haction⟩ | ⟨hindex, -, haction⟩⟩
  · cases haction
  · cases haction
  · cases haction
    exact ⟨front, body, hloop, rfl, hindex⟩

include hp hbalanced in
theorem mem_of_perform {index : Nat} {move : Int} {effect : Effect}
    (h : p.get? index = some ⟨move, .perform effect⟩) : .perform effect ∈ phrases := by
  rcases get?_cases hp hbalanced h with
    ⟨front, effect', behind, rfl, -, -, haction⟩ |
    ⟨front, body, hloop, ⟨-, -, haction⟩ | ⟨-, -, haction⟩⟩
  · cases haction
    exact List.mem_append_right front List.mem_cons_self
  · cases haction
  · cases haction

/-- Of two loops, the one that starts later lies behind the other or ends within it. -/
theorem LoopPhrases.nested {front body front' body' : List Phrase}
    (h : LoopPhrases phrases front body) (h' : LoopPhrases phrases front' body')
    (hlt : opcodeCount front < opcodeCount front') :
    opcodeCount front + 1 + opcodeCount body < opcodeCount front' ∨
      opcodeCount front' + 1 + opcodeCount body' < opcodeCount front + 1 + opcodeCount body := by
  obtain ⟨hbody, start, stop, behind, rfl⟩ := h
  obtain ⟨hbody', start', stop', behind', heq⟩ := h'
  obtain ⟨more, rfl, hrest⟩ : ∃ more, front' = front ++ .beginLoop start :: more ∧
      body ++ .endLoop stop :: behind = more ++ .beginLoop start' :: (body' ++ .endLoop stop' ::
        behind') := by
    rcases List.append_eq_append_iff.mp heq with ⟨more, rfl, hrest⟩ | ⟨more, rfl, -⟩
    · cases more with
      | nil => exact absurd hlt (by rw [List.append_nil]; exact Nat.lt_irrefl _)
      | cons x more =>
        rw [List.cons_append, List.cons.injEq] at hrest
        obtain ⟨rfl, hrest⟩ := hrest
        exact ⟨more, rfl, hrest⟩
    · rw [opcodeCount_append] at hlt
      omega
  rw [opcodeCount_append, opcodeCount_cons_of_makesOpcode rfl]
  rcases List.append_eq_append_iff.mp hrest with ⟨between, rfl, htail⟩ | ⟨inner, rfl, htail⟩
  -- the later loop starts behind the end of the earlier one, or within its body
  · cases between with
    | nil => cases htail
    | cons y between =>
      rw [List.cons_append, List.cons.injEq] at htail
      obtain ⟨rfl, -⟩ := htail
      rw [opcodeCount_append, opcodeCount_cons_of_makesOpcode rfl]
      exact Or.inl (by omega)
  · cases inner with
    | nil => cases htail
    | cons x inner =>
      rw [List.cons_append, List.cons.injEq] at htail
      obtain ⟨rfl, htail⟩ := htail
      -- the later loop has its end within `body`, which is balanced, and can have no other
      obtain ⟨body'', y, tail, rfl, hy, hbody''⟩ := hbody.exists_end rfl
      rw [List.append_assoc, List.cons_append] at htail
      obtain rfl := hbody'.eq_of_append_eq hbody'' rfl hy htail
      have hmakes : y.makesOpcode = true := by
        obtain ⟨offset, rfl⟩ := Phrase.exists_endLoop hy
        rfl
      rw [opcodeCount_append, opcodeCount_cons_of_makesOpcode rfl, opcodeCount_append,
        opcodeCount_cons_of_makesOpcode hmakes]
      exact Or.inr (by omega)

end Phrases

/-! ## Effects -/

/-- An effect that is spelled somewhere is well formed. -/
theorem wellFormed_of_spelled {effect : Effect} {commands : List Command}
    (h : (Phrase.perform effect).Spelled commands) : effect.WellFormed := by
  cases h with
  | add more => exact Nat.le_add_left 1 more
  | sub more => exact Nat.le_add_left 1 more
  | @copy d first rest hfirst hrest hadds =>
    have hwalk := Idiom.forall_outbound hfirst hrest
    obtain ⟨t, ht, hincrement⟩ := hadds
    refine ⟨Idiom.targets_ne_nil hwalk ⟨t, List.mem_cons_of_mem first ht, hincrement⟩, ?_,
      fun t ht => (Idiom.mem_targets hfirst hrest ht).2, Idiom.pairwise_targets hwalk⟩
    cases d with
    | right =>
      apply Or.inl
      intro t ht
      obtain ⟨⟨k, hk, -, hoffset⟩, -⟩ := Idiom.mem_targets hfirst hrest ht
      rw [hoffset, Direction.unit]
      omega
    | left =>
      apply Or.inr
      intro t ht
      obtain ⟨⟨k, hk, -, hoffset⟩, -⟩ := Idiom.mem_targets hfirst hrest ht
      rw [hoffset, Direction.unit]
      omega
  | _ => trivial

/-- Phrases that a text is cut into are spelled. -/
theorem exists_spelled {tokens : List Token} {phrase : Phrase} (h : phrase ∈ Phrase.split tokens) :
    ∃ commands, phrase.Spelled commands := by
  rw [← map_phrase_stretches] at h
  obtain ⟨x, -, rfl⟩ := List.mem_map.mp h
  exact ⟨x.commands, x.spelled⟩

/-! ## Assembled programs -/

/-- **A program is well formed if the effects are that it is assembled from.** -/
theorem wellFormed_of_ofPhrases {phrases : List Phrase} {p : Program}
    (hp : ofPhrases phrases = .ok p)
    (heffects : ∀ effect, .perform effect ∈ phrases → effect.WellFormed) : p.WellFormed := by
  have hbalanced := balanced_of_ofPhrases hp
  constructor
  case loop_of_beginLoop =>
    intro index partner move hget
    obtain ⟨front, body, hphrases, rfl, rfl⟩ := exists_of_beginLoop hp hbalanced hget
    have hloop := hphrases.loop hp
    obtain ⟨move', hstop⟩ := hloop.endLoop
    exact ⟨lt_size_of_get? hstop, hloop⟩
  case loop_of_endLoop =>
    intro index partner move hget
    obtain ⟨front, body, hphrases, rfl, rfl⟩ := exists_of_endLoop hp hbalanced hget
    exact hphrases.loop hp
  case nested =>
    intro start stop start' stop' hloop hloop' hne
    obtain ⟨move, hget⟩ := hloop.beginLoop
    obtain ⟨move', hget'⟩ := hloop'.beginLoop
    obtain ⟨front, body, hphrases, rfl, rfl⟩ := exists_of_beginLoop hp hbalanced hget
    obtain ⟨front', body', hphrases', rfl, rfl⟩ := exists_of_beginLoop hp hbalanced hget'
    rcases Nat.lt_or_gt_of_ne hne with hlt | hgt
    · have := hphrases.nested hphrases' hlt
      omega
    · have := hphrases'.nested hphrases hgt
      omega
  case effects =>
    intro index move effect hget
    exact heffects effect (mem_of_perform hp hbalanced hget)

theorem wellFormed_of_compile {text : String} {p : Program} (h : compile text = .ok p) :
    p.WellFormed := by
  refine wellFormed_of_ofPhrases h fun effect heffect => ?_
  obtain ⟨commands, hspelled⟩ := exists_spelled heffect
  exact wellFormed_of_spelled hspelled

end Program

end Brainfuck
