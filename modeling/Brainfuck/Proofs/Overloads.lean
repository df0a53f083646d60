import Brainfuck.Proofs.Grammar
import Brainfuck.Proofs.Walks

/-!
# Loops that add too much

A loop idiom is found with numbers in words as it is with numbers of any size, unless it overloads a
word (`Idiom.recognizeInWords?_eq`). `Idiom.Overloads` says of the commands alone which loops do:
those that start with `[-` and a walk on which more increments come in a row than half a word can
count.

On these, a recogniser that checks its numbers crashes (`Idiom.recognizeInWords?_of_overloads`), and
any other finds what half words hold of the idiom (`Idiom.recognizeInWords?_eq_held`).
-/

namespace Brainfuck

variable {o : Overflow} {d : Direction}

namespace Idiom

/-! ## Loops that add too much -/

/-- On a walk in direction `d` over the commands, more increments come in a row than half a word can
count. -/
def PilesUp (d : Direction) (commands : List Command) : Prop :=
  ∃ walk, (∀ c ∈ walk, c = .move d ∨ c = .increment) ∧
    walk ++ List.replicate (greatestHalfWord + 1) .increment <+: commands

/-- The commands start with a copying loop that adds more at one place, on its way out, than half a
word can count. Whether and how the loop is closed comes behind. -/
def Overloads (commands : List Command) : Prop :=
  ∃ d behind, commands = .beginLoop :: .decrement :: .move d :: behind ∧ PilesUp d behind

/-- Commands that start with no loop do not start with such a loop. -/
theorem not_overloads_cons {c : Command} (commands : List Command) (hc : c ≠ .beginLoop) :
    ¬Overloads (c :: commands) := by
  rintro ⟨d, behind, hcommands, -⟩
  exact hc (List.cons.inj hcommands).1

/-- A loop needs more commands than half a word can count to add too much. -/
theorem not_overloads_of_length_le {commands : List Command}
    (h : commands.length ≤ greatestHalfWord) : ¬Overloads commands := by
  rintro ⟨d, behind, rfl, walk, -, hprefix⟩
  have hlength := hprefix.length_le
  rw [List.length_append, List.length_replicate] at hlength
  simp only [List.length_cons] at h
  omega

/-- A front part of a row that starts with a run ends within the run or goes over all of it. -/
theorem prefix_of_replicate_append {α : Type} {c : α} {count : Nat} {row behind : List α}
    (h : row <+: List.replicate count c ++ behind) :
    row.length ≤ count ∨ ∃ x more rest, row = List.replicate count c ++ x :: more ∧
      behind = x :: rest ∧ more <+: rest := by
  rcases List.prefix_or_prefix_of_prefix h (List.prefix_append _ behind) with hwithin | ⟨more, rfl⟩
  · have hle := hwithin.length_le
    rw [List.length_replicate] at hle
    exact Or.inl hle
  · rw [List.prefix_append_right_inj] at h
    cases more with
    | nil =>
      rw [List.append_nil, List.length_replicate]
      exact Or.inl (Nat.le_refl count)
    | cons x more =>
      obtain ⟨tail, rfl⟩ := h
      exact Or.inr ⟨x, more, more ++ tail, rfl, rfl, List.prefix_append more tail⟩

/-- Increments pile up where there are too many, or on the walk behind them. -/
theorem pilesUp_replicate_append_iff {count : Nat} {behind : List Command}
    (hbehind : behind.head? ≠ some .increment) :
    PilesUp d (List.replicate count .increment ++ behind) ↔
      greatestHalfWord < count ∨ ∃ rest, behind = .move d :: rest ∧ PilesUp d rest := by
  constructor
  · rintro ⟨walk, hwalk, hprefix⟩
    rcases prefix_of_replicate_append hprefix with hle | ⟨c, more, rest, hrow, rfl, hmore⟩
    · rw [List.length_append, List.length_replicate] at hle
      exact Or.inl (by omega)
    · replace hbehind : c ≠ .increment := fun hc => hbehind (congrArg some hc)
      -- the command behind the increments belongs to the walk, and not to the pile
      rcases List.append_eq_append_iff.mp hrow with ⟨pile, -, hpile⟩ | ⟨walk', rfl, hpile⟩
      · have hc : c ∈ pile ++ c :: more := List.mem_append_right _ List.mem_cons_self
        rw [← hpile] at hc
        exact absurd (List.eq_of_mem_replicate hc) hbehind
      · rcases walk' with - | ⟨c', walk'⟩
        · rw [List.nil_append, List.replicate_succ, List.cons.injEq] at hpile
          exact absurd hpile.1 hbehind
        · rw [List.cons_append, List.cons.injEq] at hpile
          obtain ⟨rfl, rfl⟩ := hpile
          have hc := (hwalk c (List.mem_append_right _ List.mem_cons_self)).resolve_right hbehind
          exact Or.inr ⟨rest, hc ▸ rfl, walk', fun c hc =>
            hwalk c (List.mem_append_right _ (List.mem_cons_of_mem _ hc)), hmore⟩
  · rintro (hlt | ⟨rest, rfl, walk, hwalk, hprefix⟩)
    · refine ⟨[], fun _ h => absurd h List.not_mem_nil, ?_⟩
      obtain ⟨more, rfl⟩ := Nat.exists_eq_add_of_lt hlt
      rw [List.nil_append, Nat.add_right_comm, List.replicate_add (greatestHalfWord + 1),
        List.append_assoc]
      exact List.prefix_append _ _
    · refine ⟨List.replicate count .increment ++ .move d :: walk, ?_, ?_⟩
      · intro c hc
        rcases List.mem_append.mp hc with hc | hc
        · exact Or.inr (List.eq_of_mem_replicate hc)
        · rcases List.mem_cons.mp hc with rfl | hc
          · exact Or.inl rfl
          · exact hwalk c hc
      · rw [List.append_assoc, List.cons_append]
        exact (List.prefix_append_right_inj _).mpr (List.cons_prefix_cons.mpr ⟨rfl, hprefix⟩)

theorem heavy_targetAt_iff {depth count : Nat} :
    Heavy (targetAt d depth count) ↔ greatestHalfWord < count := by
  constructor
  · rintro ⟨t, ht, hlt⟩
    obtain ⟨rfl, -⟩ := mem_targetAt ht
    exact hlt
  · intro hlt
    rw [targetAt, if_neg (by omega)]
    exact ⟨_, List.mem_singleton_self _, hlt⟩

/-- A walk has a target that is too heavy exactly if increments pile up, those included that it has
already met where it is. -/
theorem heavy_targetsFrom_iff (tokens : List Token) (depth count : Nat) :
    Heavy (targetsFrom d depth count (tokens.takeWhile (outbound d))) ↔
      PilesUp d (List.replicate count .increment ++ tokens.map (·.command)) := by
  induction tokens generalizing depth count with
  | nil =>
    rw [List.takeWhile_nil, targetsFrom, heavy_targetAt_iff,
      pilesUp_replicate_append_iff (by simp)]
    simp
  | cons t rest ih =>
    rw [List.map_cons]
    by_cases hincrement : t.command = .increment
    · rw [List.takeWhile_cons_of_pos (outbound_iff.mpr (Or.inr hincrement)),
        targetsFrom_increment _ hincrement, ih, hincrement, List.replicate_succ', List.append_assoc]
      rfl
    · rw [pilesUp_replicate_append_iff (by simpa using hincrement)]
      by_cases hmove : t.command = .move d
      · have happend : ∀ near far : List Target, Heavy (near ++ far) ↔ Heavy near ∨ Heavy far := by
          simp only [Heavy, List.mem_append, or_and_right, exists_or, implies_true]
        rw [List.takeWhile_cons_of_pos (outbound_iff.mpr (Or.inl hmove)),
          targetsFrom_move _ hmove, happend, heavy_targetAt_iff, ih, hmove]
        simp
      · have hstop : ¬outbound d t := by
          rw [outbound_iff]
          exact not_or.mpr ⟨hmove, hincrement⟩
        rw [List.takeWhile_cons_of_neg hstop, targetsFrom, heavy_targetAt_iff]
        simp [hmove]

/-- A copying loop adds too much exactly if a target of its walk is too heavy. -/
theorem overloads_iff_heavy (opening down : Nat) {first : Token} {rest : List Token}
    (hfirst : first.command = .move d) :
    Overloads ((⟨.beginLoop, opening⟩ :: ⟨.decrement, down⟩ :: first :: rest).map (·.command)) ↔
      Heavy (targetsFrom d 0 0 ((first :: rest).takeWhile (outbound d))) := by
  have hpile : PilesUp d (List.replicate 0 .increment ++ .move d :: rest.map (·.command)) ↔ _ :=
    pilesUp_replicate_append_iff (by simp)
  rw [heavy_targetsFrom_iff, List.map_cons, List.map_cons, List.map_cons, hfirst, hpile]
  simp [Overloads]

/-! ## What is recognised -/

/-- The copying loop is found, or declined, in one pass as in two, or adds too much. -/
theorem copyInWords?_cases {tokens : List Token}
    (hroom : ((tokens.length : Nat) : Int) ≤ greatestPosition) :
    (copyInWords? o tokens = .ok ((copy? tokens).bind held?) ∧
      (o = .crashes → ¬Overloads (tokens.map (·.command)))) ∨
    o = .crashes ∧ Overloads (tokens.map (·.command)) ∧
      copyInWords? o tokens = .error .overflow := by
  by_cases hshape : ∃ opening down d offset rest, tokens =
      ⟨.beginLoop, opening⟩ :: ⟨.decrement, down⟩ :: ⟨.move d, offset⟩ :: rest
  · obtain ⟨opening, down, d, offset, rest, rfl⟩ := hshape
    rw [overloads_iff_heavy opening down (d := d) rfl]
    refine copyAlongInWords?_cases rfl ?_
    simp only [List.length_cons] at hroom ⊢
    omega
  · have hcopy : copy? tokens = none := by
      unfold copy?
      split
      · exact absurd ⟨_, _, _, _, _, rfl⟩ hshape
      · rfl
    have hwords : copyInWords? o tokens = .ok none := by
      unfold copyInWords?
      split
      · exact absurd ⟨_, _, _, _, _, rfl⟩ hshape
      · rfl
    refine Or.inl ⟨by rw [hcopy, hwords]; rfl, ?_⟩
    rintro - ⟨d, behind, hcommands, -⟩
    simp only [List.map_eq_cons_iff] at hcommands
    obtain ⟨⟨_, _⟩, _, rfl, rfl, ⟨_, _⟩, _, rfl, rfl, ⟨_, _⟩, _, rfl, rfl, -⟩ := hcommands
    exact hshape ⟨_, _, _, _, _, rfl⟩

/-- A loop that is cleared starts no walk. -/
theorem clear?_spells {tokens : List Token} {i : Idiom} (h : clear? tokens = some i) :
    i.held? = some i ∧ ¬Overloads (tokens.map (·.command)) := by
  unfold clear? at h
  split at h
  · cases h
    exact ⟨rfl, by simp [Overloads]⟩
  · cases h
    exact ⟨rfl, by simp [Overloads]⟩
  · cases h

/-- What is recognised with numbers in words, in each of the two cases. -/
theorem recognizeInWords?_cases {tokens : List Token}
    (hroom : ((tokens.length : Nat) : Int) ≤ greatestPosition) :
    (recognizeInWords? o tokens = .ok ((recognize? tokens).bind held?) ∧
      (o = .crashes → ¬Overloads (tokens.map (·.command)))) ∨
    o = .crashes ∧ Overloads (tokens.map (·.command)) ∧
      recognizeInWords? o tokens = .error .overflow := by
  unfold recognizeInWords? recognize?
  cases hclear : clear? tokens with
  | some i =>
    obtain ⟨hheld, hnot⟩ := clear?_spells hclear
    refine Or.inl ⟨?_, fun _ => hnot⟩
    show Except.ok (some i) = .ok (i.held?)
    rw [hheld]
  | none =>
    rcases copyInWords?_cases (o := o) hroom with ⟨hcopy, hnot⟩ | ⟨ho, hover, hcopy⟩
    · refine Or.inl ⟨?_, hnot⟩
      rw [hcopy]
      cases hfound : copy? tokens with
      | some i =>
        -- where the copying loop is declined after all, there is nothing else to find
        have hscan : scan? tokens = none := by
          cases hscan : scan? tokens with
          | none => rfl
          | some j =>
            rw [(alone_of_scan? hscan).2] at hfound
            cases hfound
        rw [Option.bind_some]
        cases hheld : i.held? with
        | none =>
          show Except.ok (scan? tokens) = .ok i.held?
          rw [hscan, hheld]
        | some i' =>
          show Except.ok (some i') = .ok i.held?
          rw [hheld]
      | none =>
        show Except.ok (scan? tokens) = .ok ((scan? tokens).bind held?)
        cases hscan : scan? tokens with
        | none => rfl
        | some i =>
          obtain ⟨-, d, heffect⟩ := scan?_eq_some_iff.mp hscan
          rw [Option.bind_some, held?, heffect]
    · refine Or.inr ⟨ho, hover, ?_⟩
      rw [hcopy]
      rfl

/-- Otherwise the idiom is found that is found with numbers of any size, as half words hold it. -/
theorem recognizeInWords?_eq_held {tokens : List Token}
    (hroom : ((tokens.length : Nat) : Int) ≤ greatestPosition)
    (h : o = .crashes → ¬Overloads (tokens.map (·.command))) :
    recognizeInWords? o tokens = .ok ((recognize? tokens).bind held?) := by
  rcases recognizeInWords?_cases (o := o) hroom with ⟨hok, -⟩ | ⟨ho, hover, -⟩
  · exact hok
  · exact absurd hover (h ho)

/-- An idiom that does not add too much is held as it is. -/
theorem held?_eq_some {tokens : List Token} {i : Idiom} (hi : recognize? tokens = some i)
    (h : ¬Overloads (tokens.map (·.command))) : i.held? = some i := by
  simp only [recognize?, Option.orElse_eq_orElse, Option.orElse_eq_or, Option.or_eq_some_iff] at hi
  rcases hi with hclear | ⟨-, hcopy | ⟨-, hscan⟩⟩
  · exact (clear?_spells hclear).1
  · unfold copy? at hcopy
    split at hcopy
    case h_2 => cases hcopy
    case h_1 opening down d offset rest =>
      rw [overloads_iff_heavy opening down (d := d) rfl] at h
      obtain ⟨walk, back, closing, tail, -, hwalk, hout, -, -, hback, hless, rfl⟩ :=
        copyAlong?_eq_some hcopy
      rw [← hwalk] at h
      have hheld : heldTargets (targets d walk) = targets d walk := by
        apply heldTargets_eq_self
        · intro t ht
          exact (mem_targetsFrom hout (mem_targets_iff.mp ht)).2
        · rintro ⟨t, ht, hlt⟩
          exact h ⟨t, mem_targets_iff.mp ht, hlt⟩
      rw [held?_copy, hheld, if_neg ((targets_ne_nil_iff hout).mpr (hback ▸ hless))]
  · obtain ⟨-, d, heffect⟩ := scan?_eq_some_iff.mp hscan
    rw [held?, heffect]

/-- **Nothing overflows but a pile of increments.** The idiom that is found with numbers of any size
is found with numbers in words, if no more increments come in a row on the way out than half a word
can count. -/
theorem recognizeInWords?_eq {tokens : List Token}
    (hroom : ((tokens.length : Nat) : Int) ≤ greatestPosition)
    (h : ¬Overloads (tokens.map (·.command))) :
    recognizeInWords? o tokens = .ok (recognize? tokens) := by
  rw [recognizeInWords?_eq_held hroom fun _ => h]
  cases hi : recognize? tokens with
  | none => rfl
  | some i => rw [Option.bind_some, held?_eq_some hi h]

end Idiom

end Brainfuck
