import Brainfuck.Proofs.Dispatch
import Brainfuck.Proofs.Leaving
import Brainfuck.Proofs.Places
import Brainfuck.Proofs.Rounds

/-!
# Where the plain interpreter and the machine meet

Between two stretches of a text the plain interpreter and the machine are in step: both have the
same tape, and what the plain cursor is ahead of it are the moves that the next opcode carries. Such
a pair of states is told by the stretches in front of it (`Plain.State.behind`, `Session.behind`).

`Follows` says how a single dispatch from there is followed by the plain interpreter: in one or more
commands both come to meet again, or the plain interpreter stops. Where it stops, so does the
machine, with one exception: it does not notice that a scan has stayed on a nonzero cell at the edge
(`Stops.clamped`).

The move of an opcode leads off the tape, and then both stop (`follows_of_not_holds`), or to a cell,
which is a `Landing`.
-/

namespace Brainfuck

variable {σ : Type}

/-- The plain interpreter behind some stretches. -/
def Plain.State.behind (front : List Stretch) (tape : Tape) (device : σ) : Plain.State σ :=
  ⟨(rowCommands front).length, tape.cursor + carried (front.map (·.phrase)), tape, device⟩

/-- The session behind some stretches. -/
def Session.behind (p : Program) (front : List Stretch) (tape : Tape) (device : σ) (steps : Nat) :
    Session σ :=
  ⟨⟨p, tape, opcodeCount (front.map (·.phrase)), steps⟩, device⟩

/-- The cursor is on the tape, and the tape has `size` cells. -/
structure Tape.Fits (t : Tape) (size : Nat) : Prop where
  size_eq : t.size = size
  cursor_lt : t.cursor < t.size

/-- What becomes of the next dispatch behind `front` where the plain interpreter stops with `r`. -/
inductive Stops (io : Console σ) (tokens : List Token) (p : Program) (front : List Stretch)
    (tape : Tape) (device : σ) : Plain.Result σ → Prop
  /-- Nothing is left to be executed. -/
  | finished {s : Plain.State σ} (unchanged : s.tape = tape ∧ s.device = device)
      (last : opcodeCount (front.map (·.phrase)) = p.size) :
      Stops io tokens p front tape device (.finished s)
  /-- Both read or write, and that fails. -/
  | failed {e : DeviceError} {s : Plain.State σ}
      (dispatch : ∀ steps, ∃ machine, (Session.behind p front tape device steps).dispatch io =
        (.error (.reported (.io e)), ⟨machine, s.device⟩)) :
      Stops io tokens p front tape device (.failed e s)
  /-- Both come to a cell that is not on the tape. -/
  | offTape {e : OffTape} {s : Plain.State σ}
      (noScan : ∀ d, ¬Plain.ClosesScan (tokens.map (·.command)) d s.position)
      (index : opcodeIndex (stretches tokens) s.position = opcodeCount (front.map (·.phrase)))
      (unchanged : s.device = device)
      (dispatch : ∀ steps, ∃ machine, (Session.behind p front tape device steps).dispatch io =
        (.error (.reported (.offTape e)), ⟨machine, device⟩))
      (leaves : ∃ o, p.get? (opcodeCount (front.map (·.phrase))) = some o ∧
        o.Leaves tape e s.cursor) :
      Stops io tokens p front tape device (.offTape s)
  /-- The plain interpreter leaves the tape, and the machine stays at its edge. -/
  | clamped {d : Direction} {s : Plain.State σ} {move : Int}
      (scan : Plain.ClosesScan (tokens.map (·.command)) d s.position)
      (index : opcodeIndex (stretches tokens) s.position = opcodeCount (front.map (·.phrase)))
      (unchanged : s.device = device)
      (opcode : p.get? (opcodeCount (front.map (·.phrase))) = some ⟨move, .perform (.scan d)⟩)
      (dispatch : ∀ steps, (Session.behind p front tape device steps).dispatch io =
        (.ok (), ⟨⟨p, s.tape, opcodeCount (front.map (·.phrase)) + 1, steps + 1⟩, device⟩))
      (cells : s.tape.cells = tape.cells)
      (clamped : s.tape.Clamped d)
      (fits : s.tape.Fits tape.size) :
      Stops io tokens p front tape device (.offTape s)

theorem Stops.stopped {io : Console σ} {tokens : List Token} {p : Program} {front : List Stretch}
    {tape : Tape} {device : σ} {r : Plain.Result σ} (h : Stops io tokens p front tape device r) :
    r.Stopped := by
  cases h <;> nofun

/-- How a dispatch behind `front` is followed. -/
inductive Follows (io : Console σ) (tokens : List Token) (p : Program) (front : List Stretch)
    (tape : Tape) (device : σ) : Prop
  /-- Both go on, and meet again behind `front'`. -/
  | advanced {n : Nat} {front' rest' : List Stretch} {tape' : Tape} {device' : σ}
      (row : stretches tokens = front' ++ rest')
      (plain : Plain.Reaches io (tokens.map (·.command)) (n + 1) (.behind front tape device)
        (.behind front' tape' device'))
      (dispatch : ∀ steps, (Session.behind p front tape device steps).dispatch io =
        (.ok (), .behind p front' tape' device' (steps + 1)))
      (fits : tape'.Fits tape.size)
  /-- The plain interpreter stops. -/
  | stops {n : Nat} {r : Plain.Result σ}
      (plain : Plain.after io (tokens.map (·.command)) n (.behind front tape device) = r)
      (h : Stops io tokens p front tape device r)

/-- A token list that has been compiled, and a tape on which no position overflows. -/
structure Compiled (tokens : List Token) (p : Program) (size : Nat) : Prop where
  ofTokens : Program.ofTokens tokens = .ok p
  inWord : ((tokens.length + size : Nat) : Int) ≤ greatestPosition

section Row

variable {tokens : List Token} {p : Program} {size : Nat} {front rest : List Stretch} {x : Stretch}

theorem Compiled.ofPhrases (h : Compiled tokens p size) :
    Program.ofPhrases ((stretches tokens).map (·.phrase)) = .ok p := by
  rw [map_phrase_stretches]
  exact h.ofTokens

theorem Compiled.balanced (h : Compiled tokens p size) :
    Balanced Stretch.bracket? (stretches tokens) := by
  exact (balanced_map_iff (f := Stretch.phrase)).mp (Program.balanced_of_ofPhrases h.ofPhrases)

theorem length_rowCommands_stretches (tokens : List Token) :
    (rowCommands (stretches tokens)).length = tokens.length := by
  rw [rowCommands_stretches, List.length_map]

/-- The moves that an opcode carries lead to a position that fits into a word. -/
theorem Compiled.inWord_carried (h : Compiled tokens p size)
    (hrow : stretches tokens = front ++ rest) {t : Tape} (hfits : t.Fits size) :
    t.InWord (carried (front.map (·.phrase))) := by
  -- each stretch carries a move by one at most, and takes up one command at least
  have hlength := length_rowCommands_stretches tokens
  have hfront := length_le_rowCommands front
  have hcarried := carried_bounds (front.map (·.phrase))
  have hword := h.inWord
  have hcursor := hfits.cursor_lt
  rw [hfits.size_eq] at hcursor
  rw [hrow, rowCommands_append, List.length_append] at hlength
  rw [List.length_map] at hcarried
  unfold Tape.InWord leastPosition greatestPosition at *
  omega

/-- The commands of a stretch, at their place among all commands. -/
theorem segment_commands (hrow : stretches tokens = front ++ x :: rest) :
    Plain.Segment (tokens.map (·.command)) (rowCommands front).length x.commands := by
  rw [← rowCommands_stretches, hrow, rowCommands_append, rowCommands_cons]
  exact .of_append _ _ _

/-- The brackets of a loop that is a stretch are partners. -/
theorem loop_of_stretch (hrow : stretches tokens = front ++ x :: rest) {body : List Command}
    (hcommands : x.commands = .beginLoop :: (body ++ [.endLoop]))
    (hbody : Balanced Command.bracket? body) :
    Plain.Loop (tokens.map (·.command)) (rowCommands front).length
      ((rowCommands front).length + 1 + body.length) := by
  rw [← rowCommands_stretches, hrow, rowCommands_append, rowCommands_cons, hcommands,
    List.cons_append, List.append_assoc, List.singleton_append]
  exact .of_balanced hbody _

/-- The brackets of a loop of stretches are partners. -/
theorem loop_of_stretches {y z : Stretch} {body : List Stretch} {start stop : Nat}
    (hrow : stretches tokens = front ++ y :: (body ++ z :: rest))
    (hy : y.phrase = .beginLoop start) (hz : z.phrase = .endLoop stop)
    (hbody : Balanced Stretch.bracket? body) :
    Plain.Loop (tokens.map (·.command)) (rowCommands front).length
      ((rowCommands front).length + 1 + (rowCommands body).length) := by
  rw [← rowCommands_stretches, hrow, rowCommands_append, rowCommands_cons, rowCommands_append,
    rowCommands_cons, Stretch.commands_of_beginLoop hy, Stretch.commands_of_endLoop hz]
  exact .of_balanced hbody.rowCommands _

/-! ## Behind an opcode nothing is held back -/

theorem carried_concat_of_makesOpcode (hx : x.phrase.makesOpcode = true) :
    carried ((front ++ [x]).map (·.phrase)) = 0 := by
  rw [List.map_append, List.map_singleton, carried_append_cons hx]
  rfl

theorem opcodeCount_concat (hx : x.phrase.makesOpcode = true) :
    opcodeCount ((front ++ [x]).map (·.phrase)) = opcodeCount (front.map (·.phrase)) + 1 := by
  rw [List.map_append, List.map_singleton, opcodeCount_append, opcodeCount_cons_of_makesOpcode hx]
  rfl

theorem Plain.State.behind_concat (hx : x.phrase.makesOpcode = true) (t : Tape) (device : σ) :
    Plain.State.behind (front ++ [x]) t device =
      ⟨(rowCommands front).length + x.commands.length, t.cursor, t, device⟩ := by
  unfold Plain.State.behind
  rw [carried_concat_of_makesOpcode hx, Int.add_zero, rowCommands_append, List.length_append,
    rowCommands_cons, rowCommands_nil, List.append_nil]

theorem Session.behind_concat (hx : x.phrase.makesOpcode = true) (t : Tape) (device : σ)
    (steps : Nat) :
    Session.behind p (front ++ [x]) t device steps =
      ⟨⟨p, t, opcodeCount (front.map (·.phrase)) + 1, steps⟩, device⟩ := by
  unfold Session.behind
  rw [opcodeCount_concat hx]

end Row

/-- An opcode makes something of the cell at the cursor. Its first command is no move, and a `]`
only if the opcode is the end of a loop. -/
theorem Phrase.Spelled.exists_first {phrase : Phrase} {commands : List Command}
    (h : phrase.Spelled commands) (hmakes : phrase.makesOpcode = true) :
    ∃ c more, commands = c :: more ∧ Plain.usesCell c = true ∧
      (c = .endLoop → ∃ offset, phrase = .endLoop offset) := by
  cases h with
  | move d => cases hmakes
  | endLoop offset => exact ⟨_, _, rfl, rfl, fun _ => ⟨offset, rfl⟩⟩
  | _ => exact ⟨_, _, rfl, rfl, nofun⟩

section Dispatches

variable {io : Console σ} {tokens : List Token} {p : Program} {front rest : List Stretch}
  {x : Stretch} {tape : Tape} {device : σ} {action : Action}

/-- Where the move of an opcode leads off the tape, both stop. -/
theorem follows_of_not_holds (hc : Compiled tokens p tape.size)
    (hrow : stretches tokens = front ++ x :: rest) (hx : x.phrase.makesOpcode = true)
    (hfits : tape.Fits tape.size)
    (hget : p.get? (opcodeCount (front.map (·.phrase))) =
      some ⟨carried (front.map (·.phrase)), action⟩)
    (hnot : ¬tape.Holds (tape.cursor + carried (front.map (·.phrase)))) :
    Follows io tokens p front tape device := by
  obtain ⟨c, more, hcommands, huses, hend⟩ := x.spelled.exists_first hx
  have hsegment := segment_commands hrow
  have hcommands : x.commands = c :: more := hcommands
  rw [hcommands] at hsegment
  have hstop : Plain.step io (tokens.map (·.command)) (.behind front tape device) = _ :=
    Plain.step_of_offTape io hsegment.head huses (Plain.cell?_of_not_holds hnot)
  refine .stops (Plain.after_succ_of_stopped hstop (.offTape _) 0) (.offTape ?_ ?_ rfl
    (fun steps => ⟨_, Session.dispatch_of_failed
      (Machine.turn_of_not_holds hget (hc.inWord_carried hrow hfits) hnot)⟩)
    ⟨_, hget, .landing hnot⟩)
  -- only a `]` ends a scan, and one that is an opcode of its own does not
  · intro d hscan
    have hclosing := hscan.endLoop.symm.trans hsegment.head
    obtain ⟨offset, hx⟩ := hend (Option.some.inj hclosing).symm
    exact not_closesScan hrow hx d hscan
  · rw [hrow]
    exact opcodeIndex_append (i := 0) (List.length_pos_iff.mpr x.commands_ne_nil)

/-- The opcode behind `front` moves to the cell at `base`, whose value is `value`. -/
structure Landing (p : Program) (front : List Stretch) (tape : Tape) (action : Action) (base : Nat)
    (value : UInt8) : Prop where
  get : p.get? (opcodeCount (front.map (·.phrase))) =
    some ⟨carried (front.map (·.phrase)), action⟩
  inWord : tape.InWord (carried (front.map (·.phrase)))
  base_eq : (tape.cursor : Int) + carried (front.map (·.phrase)) = base
  cell : tape.cells[base]? = some value

namespace Landing

variable {base : Nat} {value : UInt8} {effect : Effect}

theorem lt_size (h : Landing p front tape action base value) : base < tape.cells.size := by
  obtain ⟨hlt, -⟩ := Array.getElem?_eq_some_iff.mp h.cell
  exact hlt

theorem holds (h : Landing p front tape action base value) (last : Nat) :
    (Tape.mk tape.cells last).Holds (base : Int) :=
  Tape.holds_natCast h.lt_size last

theorem fits (h : Landing p front tape action base value) {cells : Array UInt8}
    (hsize : cells.size = tape.cells.size) : (Tape.mk cells base).Fits tape.size := by
  refine ⟨hsize, ?_⟩
  show base < cells.size
  rw [hsize]
  exact h.lt_size

theorem behind (h : Landing p front tape action base value) (device : σ) :
    Plain.State.behind front tape device = ⟨(rowCommands front).length, base, tape, device⟩ := by
  unfold Plain.State.behind
  rw [h.base_eq]

theorem cell? (h : Landing p front tape action base value) (device : σ) :
    (Plain.State.mk (rowCommands front).length base tape device).cell? = some value :=
  Plain.cell?_natCast h.cell device

theorem turn (h : Landing p front tape action base value) (steps : Nat) :
    Machine.turn ⟨p, tape, opcodeCount (front.map (·.phrase)), steps⟩ =
      Machine.act action value
        ⟨p, ⟨tape.cells, base⟩, opcodeCount (front.map (·.phrase)), steps⟩ := by
  have hholds : tape.Holds (tape.cursor + carried (front.map (·.phrase))) := by
    rw [h.base_eq]
    exact h.holds tape.cursor
  have hcell : tape.cells[(tape.cursor + carried (front.map (·.phrase))).toNat]? = some value := by
    rw [h.base_eq]
    exact h.cell
  rw [Machine.turn_of_holds h.get h.inWord hholds hcell, h.base_eq]
  rfl

/-- Both meet behind the opcode. -/
theorem advanced (h : Landing p front tape (.perform effect) base value)
    (hrow : stretches tokens = front ++ x :: rest) (hx : x.phrase = .perform effect)
    (tape' : Tape) (device' : σ)
    (hplain : ∃ n, Plain.Reaches io (tokens.map (·.command)) (n + 1)
      ⟨(rowCommands front).length, base, tape, device⟩
      ⟨(rowCommands front).length + x.commands.length, tape'.cursor, tape', device'⟩)
    (hdispatch : ∀ steps, (Session.behind p front tape device steps).dispatch io =
      (.ok (), ⟨⟨p, tape', opcodeCount (front.map (·.phrase)) + 1, steps + 1⟩, device'⟩))
    (hfits : tape'.Fits tape.size) : Follows io tokens p front tape device := by
  have hmakes : x.phrase.makesOpcode = true := by
    rw [hx]
    rfl
  have hrow' : stretches tokens = (front ++ [x]) ++ rest := by
    rw [hrow, List.append_assoc, List.singleton_append]
  obtain ⟨n, hplain⟩ := hplain
  rw [← h.behind, ← Plain.State.behind_concat hmakes] at hplain
  refine .advanced hrow' hplain ?_ hfits
  intro steps
  rw [Session.behind_concat hmakes]
  exact hdispatch steps

theorem dispatch_of_perform (h : Landing p front tape (.perform effect) base value)
    {machine' : Machine} {steps : Nat}
    (hperform : Machine.perform effect value
        ⟨p, ⟨tape.cells, base⟩, opcodeCount (front.map (·.phrase)), steps⟩ = (.moved, machine'))
    (device : σ) :
    (Session.behind p front tape device steps).dispatch io = (.ok (), ⟨machine', device⟩) :=
  Session.dispatch_of_moved ((h.turn steps).trans hperform)

end Landing

end Dispatches

end Brainfuck
