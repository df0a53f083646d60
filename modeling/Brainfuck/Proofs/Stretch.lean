import Brainfuck.Proofs.Spelling
import Brainfuck.Proofs.Targets

/-!
# Stretches of a text

A `Stretch` is a phrase together with the tokens it takes up, which spell it. `stretches` cuts a
token list into its stretches, as `Phrase.split` cuts it into its phrases:

* `rowTokens_stretches`: nothing is lost between two stretches.
* `stretches_of_append`: what follows a stretch is cut as if nothing stood in front of it.

An idiom takes up a balanced row of commands (`Stretch.balanced_commands`). So a row of stretches
that is balanced, where an idiom counts as no bracket at all, takes up a balanced row of commands
(`Balanced.rowCommands`).
-/

namespace Brainfuck

/-- A phrase and the tokens it takes up. -/
structure Stretch where
  phrase : Phrase
  tokens : List Token
  spelled : phrase.Spelled (tokens.map (·.command))
  beginLoop_located : ∀ offset, phrase = .beginLoop offset → tokens = [⟨.beginLoop, offset⟩]
  endLoop_located : ∀ offset, phrase = .endLoop offset → tokens = [⟨.endLoop, offset⟩]

namespace Stretch

/-- The stretch that starts at `first`, with `rest` behind it. -/
def ofStart (first : Token) (rest : List Token) : Stretch where
  phrase := (Phrase.start first rest).1
  tokens := first :: rest.take (Phrase.start first rest).2
  spelled := Phrase.start_spelled first rest
  beginLoop_located := fun _ h => by
    obtain ⟨rfl, hmore, -⟩ := Phrase.start_of_bracket.1 h
    rw [hmore, List.take_zero]
  endLoop_located := fun _ h => by
    obtain ⟨rfl, hmore⟩ := Phrase.start_of_bracket.2 h
    rw [hmore, List.take_zero]

/-- The commands that the stretch takes up. -/
def commands (x : Stretch) : List Command := x.tokens.map (·.command)

/-- The bracket that the stretch is. An idiom is none. -/
def bracket? (x : Stretch) : Option Bracket := x.phrase.bracket?

end Stretch

/-- The stretches of a token list, in order. -/
def stretches : List Token → List Stretch
  | [] => []
  | first :: rest => .ofStart first rest :: stretches (rest.drop (Phrase.start first rest).2)
termination_by tokens => tokens.length
decreasing_by
  simp only [List.length_drop, List.length_cons]
  omega

/-- The tokens that a row of stretches takes up. -/
def rowTokens (row : List Stretch) : List Token := row.flatMap (·.tokens)

/-- The commands that a row of stretches takes up. -/
def rowCommands (row : List Stretch) : List Command := row.flatMap (·.commands)

@[simp] theorem rowTokens_cons (x : Stretch) (row : List Stretch) :
    rowTokens (x :: row) = x.tokens ++ rowTokens row := List.flatMap_cons

@[simp] theorem rowCommands_nil : rowCommands [] = [] := rfl

@[simp] theorem rowCommands_cons (x : Stretch) (row : List Stretch) :
    rowCommands (x :: row) = x.commands ++ rowCommands row := List.flatMap_cons

@[simp] theorem rowTokens_append (front behind : List Stretch) :
    rowTokens (front ++ behind) = rowTokens front ++ rowTokens behind := List.flatMap_append

@[simp] theorem rowCommands_append (front behind : List Stretch) :
    rowCommands (front ++ behind) = rowCommands front ++ rowCommands behind := List.flatMap_append

theorem map_command_rowTokens (row : List Stretch) :
    (rowTokens row).map (·.command) = rowCommands row := List.map_flatMap

theorem stretches_nil : stretches [] = [] := by rw [stretches]

theorem stretches_cons (first : Token) (rest : List Token) :
    stretches (first :: rest)
      = .ofStart first rest :: stretches (rest.drop (Phrase.start first rest).2) := by
  rw [stretches]

/-- The stretches carry the phrases of the token list. -/
theorem map_phrase_stretches (tokens : List Token) :
    (stretches tokens).map (·.phrase) = Phrase.split tokens := by
  fun_induction stretches tokens with
  | case1 => exact Phrase.split_nil.symm
  | case2 first rest ih =>
    rw [List.map_cons, ih, Phrase.split_cons]
    rfl

/-- Nothing is lost between two stretches. -/
theorem rowTokens_stretches (tokens : List Token) : rowTokens (stretches tokens) = tokens := by
  fun_induction stretches tokens with
  | case1 => rfl
  | case2 first rest ih =>
    rw [rowTokens_cons, ih]
    show first :: (rest.take _ ++ rest.drop _) = first :: rest
    rw [List.take_append_drop]

theorem rowCommands_stretches (tokens : List Token) :
    rowCommands (stretches tokens) = tokens.map (·.command) := by
  rw [← map_command_rowTokens, rowTokens_stretches]

/-- What follows some stretches is cut as if nothing stood in front of it. -/
theorem stretches_of_append {tokens : List Token} {front behind : List Stretch}
    (h : stretches tokens = front ++ behind) : stretches (rowTokens behind) = behind := by
  induction front generalizing tokens with
  | nil =>
    rw [List.nil_append] at h
    rw [← h, rowTokens_stretches]
  | cons x front ih =>
    cases tokens with
    | nil =>
      rw [stretches_nil, List.cons_append] at h
      cases h
    | cons first rest =>
      rw [stretches_cons, List.cons_append, List.cons.injEq] at h
      exact ih h.2

/-- A `[` that is a stretch of its own starts no idiom. -/
theorem recognize?_eq_none {tokens : List Token} {front behind : List Stretch} {x : Stretch}
    {offset : Nat} (h : stretches tokens = front ++ x :: behind)
    (hx : x.phrase = .beginLoop offset) :
    Idiom.recognize? (⟨.beginLoop, offset⟩ :: rowTokens behind) = none := by
  have hbehind := stretches_of_append h
  rw [rowTokens_cons, x.beginLoop_located offset hx, List.singleton_append, stretches_cons,
    List.cons.injEq] at hbehind
  have hstart : (Phrase.start ⟨.beginLoop, offset⟩ (rowTokens behind)).1 = .beginLoop offset := by
    rw [← hx, ← hbehind.1]
    rfl
  exact (Phrase.start_of_bracket.1 hstart).2.2

/-! ## Brackets of stretches and of commands -/

theorem balanced_of_forall_none {row : List Command} (h : ∀ c ∈ row, c.bracket? = none) :
    Balanced Command.bracket? row := by
  induction row with
  | nil => exact balanced_nil
  | cons c row ih =>
    have hc := balanced_singleton (h c List.mem_cons_self)
    exact hc.append (ih fun c' hc' => h c' (List.mem_cons_of_mem c hc'))

/-- A loop with a balanced body is balanced. -/
theorem balanced_loop {body : List Command} (h : Balanced Command.bracket? body) :
    Balanced Command.bracket? (.beginLoop :: body ++ [.endLoop]) :=
  h.enclose rfl rfl

/-- What stands between the brackets of a copying loop. -/
def Idiom.copyBody (d : Direction) (walk : List Token) : List Command :=
  .decrement :: (walk.map (·.command) ++
    List.replicate (walk.countP (moves d)) (.move d.opposite))

theorem Idiom.copyCommands_eq (d : Direction) (walk : List Token) :
    copyCommands d walk = .beginLoop :: copyBody d walk ++ [.endLoop] := by
  simp only [copyCommands, copyBody, List.cons_append, List.nil_append]

/-- There is no bracket between those of a copying loop. -/
theorem Idiom.balanced_copyBody {d : Direction} {walk : List Token}
    (hwalk : ∀ t ∈ walk, outbound d t) : Balanced Command.bracket? (copyBody d walk) := by
  apply balanced_of_forall_none
  intro c hc
  simp only [copyBody, List.mem_cons, List.mem_append, List.mem_map, List.mem_replicate] at hc
  -- the decrement, the walk, and the moves back
  rcases hc with rfl | ⟨t, ht, rfl⟩ | ⟨-, rfl⟩
  · rfl
  · rcases outbound_iff.mp (hwalk t ht) with hout | hout <;> rw [hout] <;> rfl
  · rfl

/-- A phrase that is no bracket takes up a balanced row of commands. -/
theorem Phrase.Spelled.balanced {phrase : Phrase} {commands : List Command}
    (h : phrase.Spelled commands) (hphrase : phrase.bracket? = none) :
    Balanced Command.bracket? commands := by
  cases h with
  | move d => exact balanced_singleton rfl
  | add more => exact balanced_of_forall_none fun c hc => by rw [List.eq_of_mem_replicate hc]; rfl
  | sub more => exact balanced_of_forall_none fun c hc => by rw [List.eq_of_mem_replicate hc]; rfl
  | read => exact balanced_singleton rfl
  | write => exact balanced_singleton rfl
  | clearDown => exact balanced_loop (balanced_singleton rfl)
  | clearUp => exact balanced_loop (balanced_singleton rfl)
  | scan d => exact balanced_loop (balanced_singleton rfl)
  | @copy d first rest hfirst hrest hadds =>
    rw [Idiom.copyCommands_eq]
    exact balanced_loop (Idiom.balanced_copyBody (Idiom.forall_outbound hfirst hrest))
  | beginLoop offset => cases hphrase
  | endLoop offset => cases hphrase

namespace Stretch

theorem balanced_commands {x : Stretch} (h : x.bracket? = none) :
    Balanced Command.bracket? x.commands :=
  x.spelled.balanced h

theorem commands_of_beginLoop {x : Stretch} {offset : Nat} (h : x.phrase = .beginLoop offset) :
    x.commands = [.beginLoop] := by
  rw [commands, x.beginLoop_located offset h]
  rfl

theorem commands_of_endLoop {x : Stretch} {offset : Nat} (h : x.phrase = .endLoop offset) :
    x.commands = [.endLoop] := by
  rw [commands, x.endLoop_located offset h]
  rfl

theorem commands_of_move {x : Stretch} {d : Direction} (h : x.phrase = .move d) :
    x.commands = [.move d] := by
  have hspelled := x.spelled
  rw [h] at hspelled
  generalize hcommands : x.tokens.map (·.command) = commands at hspelled
  cases hspelled
  exact hcommands

/-- An idiom takes up a balanced row of commands, and a bracket that belongs to none is alone. -/
theorem standsFor (x : Stretch) : StandsFor Command.bracket? x.bracket? x.commands := by
  cases h : x.bracket? with
  | none => exact balanced_commands h
  | some b =>
    cases b with
    | opening =>
      obtain ⟨offset, hx⟩ := Phrase.exists_beginLoop h
      exact ⟨.beginLoop, commands_of_beginLoop hx, rfl⟩
    | closing =>
      obtain ⟨offset, hx⟩ := Phrase.exists_endLoop h
      exact ⟨.endLoop, commands_of_endLoop hx, rfl⟩

end Stretch

theorem Balanced.rowCommands {row : List Stretch} (h : Balanced Stretch.bracket? row) :
    Balanced Command.bracket? (rowCommands row) :=
  h.flatMap Stretch.standsFor

end Brainfuck
