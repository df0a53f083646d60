import Brainfuck.Proofs.Meeting

/-!
# One dispatch, many commands

Main result: `follows_of_makesOpcode`. Every dispatch is followed by the plain interpreter. There is
one lemma for each kind of opcode; what the plain interpreter makes of the commands of a single
opcode is taken from `Brainfuck.Proofs.Rounds`.
-/

namespace Brainfuck

variable {σ : Type} {io : Console σ} {tokens : List Token} {p : Program}
  {front rest : List Stretch} {x : Stretch} {tape : Tape} {device : σ} {action : Action}

namespace Landing

variable {base : Nat} {value : UInt8} {effect : Effect}

/-! ## Effects -/

/-- A run of an arithmetic command. -/
theorem follows_run (h : Landing p front tape (.perform effect) base value)
    (hrow : stretches tokens = front ++ x :: rest) (hx : x.phrase = .perform effect) {c : Command}
    {amount : UInt8} (hadds : Plain.Adds c amount) {more : Nat}
    (hcommands : x.commands = List.replicate (more + 1) c)
    (hperform : ∀ m : Machine, m.perform effect value =
      (.moved, (m.store (value + UInt8.ofNat (more + 1) * amount)).advance)) :
    Follows io tokens p front tape device := by
  have hsegment := segment_commands hrow
  rw [hcommands] at hsegment
  have hrun := hadds.run io device hsegment (h.holds tape.cursor)
  -- the machine stores the value that the commands come to one by one
  have hstore : (Tape.mk tape.cells base).store (value + UInt8.ofNat (more + 1) * amount) =
      ⟨raise (gainAt base (UInt8.ofNat (more + 1) * amount)) tape.cells, base⟩ := by
    show Tape.mk (tape.cells.setIfInBounds base _) base = _
    rw [setIfInBounds_eq_raise h.cell]
    congr 3
    grind
  refine h.advanced hrow hx _ device ⟨more, ?_⟩
    (fun steps => h.dispatch_of_perform (hperform _) device) (h.fits Array.size_setIfInBounds)
  rw [hstore, hcommands, List.length_replicate]
  exact hrun

theorem follows_clear (h : Landing p front tape (.perform .clear) base value)
    (hrow : stretches tokens = front ++ x :: rest) (hx : x.phrase = .perform .clear) {c : Command}
    {amount : UInt8} (hadds : Plain.Adds c amount)
    (hcommands : x.commands = [.beginLoop, c, .endLoop]) :
    Follows io tokens p front tape device := by
  have hsegment := segment_commands hrow
  rw [hcommands] at hsegment
  have hbody : Balanced Command.bracket? [c] := balanced_singleton (by cases hadds <;> rfl)
  have hloop := loop_of_stretch hrow hcommands hbody
  obtain ⟨n, hclear⟩ := Plain.clear_reaches io device hadds hsegment hloop h.cell tape.cursor
  refine h.advanced hrow hx ((Tape.mk tape.cells base).store 0) device ⟨n, ?_⟩
    (fun steps => h.dispatch_of_perform rfl device) (h.fits Array.size_setIfInBounds)
  rw [hcommands]
  exact hclear

theorem follows_scan {d : Direction} (h : Landing p front tape (.perform (.scan d)) base value)
    (hrow : stretches tokens = front ++ x :: rest) (hx : x.phrase = .perform (.scan d))
    (hcommands : x.commands = [.beginLoop, .move d, .endLoop]) :
    Follows io tokens p front tape device := by
  have hsegment := segment_commands hrow
  rw [hcommands] at hsegment
  have hloop := loop_of_stretch hrow hcommands (balanced_singleton rfl)
  have hcells := Tape.cells_scan ⟨tape.cells, base⟩ d
  have hfits : (Tape.scan d ⟨tape.cells, base⟩).Fits tape.size :=
    ⟨congrArg Array.size hcells, Tape.scan_cursor_lt h.lt_size⟩
  rcases Plain.scan_cases io device (t := ⟨tape.cells, base⟩) hsegment hloop h.cell
    tape.cursor with ⟨-, n, hscan⟩ | ⟨hclamped, n, s, hafter, hposition, htape, hdevice⟩
  · refine h.advanced hrow hx _ device ⟨n, ?_⟩ (fun steps => h.dispatch_of_perform rfl device)
      hfits
    rw [hcommands]
    exact hscan
  · -- the loop has left the tape, and the scan has not
    rw [← htape] at hclamped hcells hfits
    have hplain : Plain.after io (tokens.map (·.command)) n (.behind front tape device) =
        .offTape s := by
      rw [h.behind]
      exact hafter
    refine .stops hplain (.clamped ⟨_, hsegment, hposition⟩ ?_ hdevice h.get (fun steps => ?_)
      hcells hclamped hfits)
    · rw [hrow, hposition]
      exact opcodeIndex_append (i := 2) (by rw [hcommands]; exact Nat.lt_succ_self 2)
    · rw [htape]
      exact h.dispatch_of_perform rfl device

theorem follows_read (h : Landing p front tape (.perform .read) base value)
    (hrow : stretches tokens = front ++ x :: rest) (hx : x.phrase = .perform .read)
    (hcommands : x.commands = [.read]) : Follows io tokens p front tape device := by
  have hsegment := segment_commands hrow
  rw [hcommands] at hsegment
  have hstep := Plain.step_of_cell io hsegment.head rfl (h.cell? device)
  rcases hread : io.read device with ⟨e | byte, device'⟩
  · rw [Plain.execute_read_failed hread, ← h.behind] at hstep
    exact .stops (Plain.after_succ_of_stopped hstep nofun 0) (.failed fun steps =>
      ⟨_, Session.dispatch_of_read_failed (h.turn steps) hread⟩)
  · rw [Plain.execute_read hread] at hstep
    have hfits : (Tape.mk ((Tape.mk tape.cells base).receive byte).cells base).Fits tape.size :=
      h.fits (Tape.size_receive byte ⟨tape.cells, base⟩)
    refine h.advanced hrow hx ((Tape.mk tape.cells base).receive byte) device' ⟨0, ?_⟩
      (fun steps => ?_) ⟨hfits.size_eq, ?_⟩
    · rw [Tape.cursor_receive, hcommands]
      exact .one hstep
    · rw [← Machine.receive_eq]
      exact Session.dispatch_of_read (h.turn steps) hread
    · rw [Tape.cursor_receive]
      exact hfits.cursor_lt

theorem follows_write (h : Landing p front tape (.perform .write) base value)
    (hrow : stretches tokens = front ++ x :: rest) (hx : x.phrase = .perform .write)
    (hcommands : x.commands = [.write]) : Follows io tokens p front tape device := by
  have hsegment := segment_commands hrow
  rw [hcommands] at hsegment
  have hstep := Plain.step_of_cell io hsegment.head rfl (h.cell? device)
  rcases hwrite : io.write value device with ⟨e | ⟨⟩, device'⟩
  · rw [Plain.execute_write_failed hwrite, ← h.behind] at hstep
    exact .stops (Plain.after_succ_of_stopped hstep nofun 0) (.failed fun steps =>
      ⟨_, Session.dispatch_of_write_failed (h.turn steps) hwrite⟩)
  · rw [Plain.execute_write hwrite] at hstep
    refine h.advanced hrow hx ⟨tape.cells, base⟩ device' ⟨0, ?_⟩
      (fun steps => Session.dispatch_of_write (h.turn steps) hwrite) (h.fits rfl)
    rw [hcommands]
    exact .one hstep

section Copying

open Idiom

variable {d : Direction} {first : Token} {walk : List Token} (hfirst : first.command = .move d)
  (hwalk : ∀ t ∈ walk, outbound d t) (hc : Compiled tokens p tape.size)
  (h : Landing p front tape (.perform (.copy (targets d (first :: walk)))) base value)
  (hrow : stretches tokens = front ++ x :: rest)
  (hx : x.phrase = .perform (.copy (targets d (first :: walk))))
  (hcommands : x.commands = copyCommands d (first :: walk))

include hcommands in
theorem length_copy_commands (position : Nat) :
    position + x.commands.length =
      position + 2 + (first :: walk).length + (first :: walk).countP (moves d) + 1 := by
  rw [hcommands, length_copyCommands]
  omega

include hfirst hwalk hc h hrow hcommands in
/-- The targets lie no further from the cell than the text is long. -/
theorem inWord_targets :
    ∀ t ∈ targets d (first :: walk), (Tape.mk tape.cells base).InWord t.offset := by
  intro t ht
  obtain ⟨⟨k, hk, hfar, hoffset⟩, -⟩ := mem_targets hfirst hwalk ht
  have hlength := length_rowCommands_stretches tokens
  have hcopy := length_copy_commands hcommands 0
  have hword := hc.inWord
  have hlt := h.lt_size
  rw [hrow, rowCommands_append, rowCommands_cons, List.length_append, List.length_append]
    at hlength
  rw [List.length_cons] at hcopy
  unfold Tape.InWord leastPosition greatestPosition at *
  unfold Tape.size at hword
  dsimp only
  cases d <;> rw [hoffset] <;> simp only [Direction.unit] <;> omega

include hfirst hwalk hrow hcommands in
theorem loop_of_copy :
    Plain.Loop (tokens.map (·.command)) (rowCommands front).length
      ((rowCommands front).length + 2 + (first :: walk).length +
        (first :: walk).countP (moves d)) := by
  have hbody := balanced_copyBody (forall_outbound hfirst hwalk)
  have hloop := loop_of_stretch hrow (hcommands.trans (copyCommands_eq _ _)) hbody
  rw [copyBody, List.length_cons, List.length_append, List.length_map, List.length_replicate]
    at hloop
  convert hloop using 1
  omega

include hfirst hwalk h hrow hx hcommands in
/-- The loop is skipped, wherever its targets are. -/
theorem follows_copy_skipped (hvalue : value = 0) : Follows io tokens p front tape device := by
  have hloop := loop_of_copy hfirst hwalk hrow hcommands
  have hskip := hloop.step_beginLoop io rfl (h.cell? device)
  rw [Plain.bracketTarget, if_pos hvalue] at hskip
  refine h.advanced hrow hx ⟨tape.cells, base⟩ device ⟨0, ?_⟩ (fun steps => ?_) (h.fits rfl)
  · rw [length_copy_commands hcommands]
    exact .one hskip
  · refine h.dispatch_of_perform ?_ device
    show (if value = 0 then _ else _) = _
    rw [if_pos hvalue]
    rfl

section Entered

variable (hvalue : value ≠ 0)

include hvalue in
theorem perform_copy (m : Machine) (targets : List Target) :
    m.perform (.copy targets) value = m.copy value targets := if_neg hvalue

include hfirst hwalk hc h hrow hx hcommands hvalue in
theorem follows_copy_of_holds
    (hall : ∀ t ∈ targets d (first :: walk), (Tape.mk tape.cells base).Holds (base + t.offset)) :
    Follows io tokens p front tape device := by
  have hsegment := segment_commands hrow
  have hloop := loop_of_copy hfirst hwalk hrow hcommands
  have hword := inWord_targets hfirst hwalk hc h hrow hcommands
  rw [hcommands] at hsegment
  obtain ⟨n, hcopy⟩ := Plain.copy_reaches io device hfirst hwalk hsegment hloop h.cell hall
    tape.cursor
  refine h.advanced hrow hx ((Tape.mk (raise
    (fun i => value * gainOf base (targets d (first :: walk)) i) tape.cells) base).store 0)
    device ⟨n, ?_⟩ (fun steps => ?_) (h.fits (Array.size_setIfInBounds.trans size_raise))
  · rw [length_copy_commands hcommands]
    exact hcopy
  · refine h.dispatch_of_perform ?_ device
    rw [perform_copy hvalue, Machine.copy, Tape.spread_of_holds hword hall]
    rfl

include hfirst hwalk h in
/-- The machine reports the first target that is missing, and the plain interpreter comes to the
nearest. -/
theorem leaves_of_copy {inner behind : List Target} {missing : Target} {offset : Int}
    (htargets : targets d (first :: walk) = inner ++ missing :: behind)
    (hinner : ∀ t ∈ inner, (Tape.mk tape.cells base).Holds (base + t.offset))
    (hmissing : ¬(Tape.mk tape.cells base).Holds (base + missing.offset))
    (hnear : Plain.Nearest d ⟨tape.cells, base⟩ base (targets d (first :: walk)) offset) :
    Opcode.Leaves ⟨carried (front.map (·.phrase)), .perform (.copy (targets d (first :: walk)))⟩ tape
      ⟨base + missing.offset, tape.size⟩ (base + offset) := by
  generalize hopcode : Opcode.mk (carried (front.map (·.phrase)))
    (.perform (.copy (targets d (first :: walk)))) = o
  have hbase : (tape.cursor : Int) + o.move = base := by rw [← hopcode, h.base_eq]
  have hmisses : ∀ {u}, o.Misses tape u ↔ u ∈ targets d (first :: walk) ∧
      ¬(Tape.mk tape.cells base).Holds (base + u.offset) := by
    intro u
    rw [Opcode.Misses, hbase, ← hopcode]
    exact Iff.rfl
  have hside : ∀ {u}, o.Misses tape u → ∃ k : Nat, 1 ≤ k ∧ u.offset = d.unit * k := by
    intro u hu
    obtain ⟨⟨k, hk, -, hoffset⟩, -⟩ := mem_targets hfirst hwalk (hmisses.mp hu).1
    exact ⟨k, hk, hoffset⟩
  -- the targets come in the order of their places, so the first that is missing is the least
  have hordered := pairwise_targets (forall_outbound hfirst hwalk)
  rw [htargets] at hordered
  obtain ⟨-, hbehind, -⟩ := List.pairwise_append.mp hordered
  have hleast : ∀ u, o.Misses tape u → missing.offset ≤ u.offset := by
    intro u hu
    obtain ⟨hmem, hnot⟩ := hmisses.mp hu
    rw [htargets] at hmem
    rcases List.mem_append.mp hmem with hmem | hmem
    · exact absurd (hinner u hmem) hnot
    · rcases List.mem_cons.mp hmem with rfl | hmem
      · exact Int.le_refl _
      · exact Int.le_of_lt ((List.pairwise_cons.mp hbehind).1 u hmem)
  obtain ⟨nearest, hnearest, rfl⟩ := exists_target hnear.adds
  have hnearest := hmisses.mpr ⟨hnearest, hnear.missing⟩
  have hnone : ∀ u, o.Misses tape u → nearest.offset.natAbs ≤ u.offset.natAbs := by
    intro u hu
    obtain ⟨hmem, hnot⟩ := hmisses.mp hu
    have hle := hnear.nearest u.offset
      (tally_ne_zero hmem (mem_targets hfirst hwalk hmem).2) hnot
    obtain ⟨k, hk, hoffset⟩ := hside hu
    obtain ⟨j, hj, hoffset'⟩ := hside hnearest
    cases d <;> simp only [Direction.unit] at * <;> omega
  rw [← hbase]
  refine .copy ?_ (hmisses.mpr ⟨?_, hmissing⟩) hleast hnearest hnone ?_
  · rw [hbase]
    exact h.holds tape.cursor
  · rw [htargets]
    exact List.mem_append_right _ List.mem_cons_self
  · cases d with
    | left =>
      refine Or.inr fun u hu => ?_
      obtain ⟨k, hk, hoffset⟩ := hside hu
      simp only [Direction.unit] at hoffset
      omega
    | right =>
      refine Or.inl fun u hu => ?_
      obtain ⟨k, hk, hoffset⟩ := hside hu
      simp only [Direction.unit] at hoffset
      omega

include hfirst hwalk hc h hrow hcommands hvalue in
/-- A target is missing. The plain interpreter comes to it at an increment, which is no `]`. -/
theorem follows_copy_of_not_holds
    (hoff : ∃ t ∈ targets d (first :: walk), ¬(Tape.mk tape.cells base).Holds (base + t.offset)) :
    Follows io tokens p front tape device := by
  have hsegment := segment_commands hrow
  have hloop := loop_of_copy hfirst hwalk hrow hcommands
  have hword := inWord_targets hfirst hwalk hc h hrow hcommands
  have hlength := length_copy_commands hcommands (rowCommands front).length
  rw [hcommands] at hsegment
  obtain ⟨n, s, hafter, hcommand, hle, hlt, hdevice, near, hcursor, hnear⟩ := Plain.copy_offTape io
    device hfirst hwalk hsegment hloop h.cell hvalue hoff tape.cursor
  obtain ⟨inner, missing, behind, htargets, hinner, hmissing, hspread⟩ :=
    Tape.spread_of_not_holds value hword hoff
  have hplain : Plain.after io (tokens.map (·.command)) n (.behind front tape device) =
      .offTape s := by
    rw [h.behind]
    exact hafter
  have hturn : ∀ steps, Machine.turn ⟨p, tape, opcodeCount (front.map (·.phrase)), steps⟩ =
      (.failed (.reported (.offTape ⟨base + missing.offset, tape.size⟩)),
        ⟨p, ⟨raise (fun i => value * gainOf base inner i) tape.cells, base⟩,
          opcodeCount (front.map (·.phrase)), steps⟩) := by
    intro steps
    rw [h.turn, Machine.act, perform_copy hvalue, Machine.copy, hspread]
    rfl
  refine .stops hplain (.offTape (fun d' hscan => ?_) ?_ hdevice
    (fun steps => ⟨_, Session.dispatch_of_failed (hturn steps)⟩)
    ⟨_, h.get, hcursor ▸ h.leaves_of_copy hfirst hwalk htargets hinner hmissing hnear⟩)
  · have hclosing := hscan.endLoop.symm.trans hcommand
    cases hclosing
  · obtain ⟨i, hi⟩ := Nat.exists_eq_add_of_le hle
    rw [hrow, hi]
    exact opcodeIndex_append (by omega)

end Entered

include hfirst hwalk hc h hrow hx hcommands in
theorem follows_copy : Follows io tokens p front tape device := by
  by_cases hvalue : value = 0
  · exact follows_copy_skipped hfirst hwalk h hrow hx hcommands hvalue
  · by_cases hall : ∀ t ∈ targets d (first :: walk),
        (Tape.mk tape.cells base).Holds (base + t.offset)
    · exact follows_copy_of_holds hfirst hwalk hc h hrow hx hcommands hvalue hall
    · obtain ⟨t, ht⟩ := Classical.not_forall.mp hall
      exact follows_copy_of_not_holds hfirst hwalk hc h hrow hcommands hvalue
        ⟨t, Classical.not_imp.mp ht⟩

end Copying

/-- Every effect is followed. -/
theorem follows_effect (hc : Compiled tokens p tape.size)
    (h : Landing p front tape (.perform effect) base value)
    (hrow : stretches tokens = front ++ x :: rest) (hx : x.phrase = .perform effect) :
    Follows io tokens p front tape device := by
  have hspelled := x.spelled
  generalize hcommands : x.tokens.map (·.command) = commands at hspelled
  rw [hx] at hspelled
  cases hspelled with
  | add more =>
    have hamount : UInt8.ofNat (more + 1) * 1 = UInt8.ofNat (more + 1) := UInt8.mul_one _
    apply h.follows_run hrow hx .increment hcommands
    intro m
    rw [hamount]
    rfl
  | sub more =>
    have hamount : value + UInt8.ofNat (more + 1) * -1 = value - UInt8.ofNat (more + 1) := by grind
    apply h.follows_run hrow hx .decrement hcommands
    intro m
    rw [hamount]
    rfl
  | read => exact h.follows_read hrow hx hcommands
  | write => exact h.follows_write hrow hx hcommands
  | clearDown => exact h.follows_clear hrow hx .decrement hcommands
  | clearUp => exact h.follows_clear hrow hx .increment hcommands
  | scan d => exact h.follows_scan hrow hx hcommands
  | copy hfirst hwalk hadds => exact follows_copy hfirst hwalk hc h hrow hx hcommands

/-! ## Brackets -/

/-- Both meet behind a bracket. -/
theorem advanced_bracket {front₀ : List Stretch} {y : Stretch} {c : Command}
    (h : Landing p front₀ tape action base value)
    (hrow : stretches tokens = (front ++ [y]) ++ rest) (hy : y.phrase.makesOpcode = true)
    (hcommands : y.commands = [c])
    (hstep : Plain.step io (tokens.map (·.command))
        ⟨(rowCommands front₀).length, base, tape, device⟩ =
      .next ⟨(rowCommands front).length + 1, base, ⟨tape.cells, base⟩, device⟩)
    (hact : ∀ steps, Machine.act action value
        ⟨p, ⟨tape.cells, base⟩, opcodeCount (front₀.map (·.phrase)), steps⟩ =
      (.moved, ⟨p, ⟨tape.cells, base⟩, opcodeCount (front.map (·.phrase)) + 1, steps + 1⟩)) :
    Follows io tokens p front₀ tape device := by
  have hplain : Plain.Reaches io (tokens.map (·.command)) 1 (.behind front₀ tape device)
      (.behind (front ++ [y]) ⟨tape.cells, base⟩ device) := by
    rw [Plain.State.behind_concat hy, hcommands, h.behind]
    exact .one hstep
  refine .advanced hrow hplain ?_ (h.fits rfl)
  intro steps
  rw [Session.behind_concat hy]
  exact Session.dispatch_of_moved ((h.turn steps).trans (hact steps))

section Brackets

variable {y z : Stretch} {body : List Stretch} {start stop : Nat}
  (hrow : stretches tokens = front ++ y :: (body ++ z :: rest)) (hy : y.phrase = .beginLoop start)
  (hz : z.phrase = .endLoop stop)

include hrow hy hz in
/-- Either bracket leads both behind the `]` if the cell is zero, and behind the `[` if not. -/
theorem follows_bracket {front₀ : List Stretch} (h : Landing p front₀ tape action base value)
    (hstep : Plain.step io (tokens.map (·.command))
        ⟨(rowCommands front₀).length, base, tape, device⟩ =
      .next ⟨Plain.bracketTarget (rowCommands front).length
        ((rowCommands front).length + 1 + (rowCommands body).length) value, base,
        ⟨tape.cells, base⟩, device⟩)
    (hact : ∀ steps, Machine.act action value
        ⟨p, ⟨tape.cells, base⟩, opcodeCount (front₀.map (·.phrase)), steps⟩ =
      (.moved, ⟨p, ⟨tape.cells, base⟩, Plain.bracketTarget (opcodeCount (front.map (·.phrase)))
        (opcodeCount (front.map (·.phrase)) + 1 + opcodeCount (body.map (·.phrase))) value,
        steps + 1⟩)) :
    Follows io tokens p front₀ tape device := by
  have hy' : y.phrase.makesOpcode = true := by rw [hy]; rfl
  have hz' : z.phrase.makesOpcode = true := by rw [hz]; rfl
  -- where both go on is cut out of the row anew: behind the `]`, or behind the `[`
  by_cases hvalue : value = 0
  · have hrow' : stretches tokens = ((front ++ y :: body) ++ [z]) ++ rest := by
      rw [hrow, List.append_assoc, List.append_assoc, List.cons_append, List.singleton_append]
    have hlength : (rowCommands (front ++ y :: body)).length =
        (rowCommands front).length + 1 + (rowCommands body).length := by
      rw [rowCommands_append, rowCommands_cons, List.length_append, List.length_append,
        Stretch.commands_of_beginLoop hy, List.length_singleton]
      omega
    have hcount : opcodeCount ((front ++ y :: body).map (·.phrase)) =
        opcodeCount (front.map (·.phrase)) + 1 + opcodeCount (body.map (·.phrase)) := by
      rw [List.map_append, List.map_cons, opcodeCount_append, opcodeCount_cons_of_makesOpcode hy']
      omega
    simp only [Plain.bracketTarget, if_pos hvalue, ← hlength, ← hcount] at hstep hact
    exact h.advanced_bracket hrow' hz' (Stretch.commands_of_endLoop hz) hstep hact
  · have hrow' : stretches tokens = (front ++ [y]) ++ (body ++ z :: rest) := by
      rw [hrow, List.append_assoc, List.singleton_append]
    simp only [Plain.bracketTarget, if_neg hvalue] at hstep hact
    exact h.advanced_bracket hrow' hy' (Stretch.commands_of_beginLoop hy) hstep hact

include hrow hy hz in
theorem follows_beginLoop (hbody : Balanced Stretch.bracket? body)
    (h : Landing p front tape
      (.beginLoop (opcodeCount (front.map (·.phrase)) + 1 + opcodeCount (body.map (·.phrase))))
      base value) : Follows io tokens p front tape device := by
  have hloop := loop_of_stretches hrow hy hz hbody
  apply h.follows_bracket hrow hy hz (hloop.step_beginLoop io rfl (h.cell? device))
  intro steps
  rw [Machine.act, Plain.bracketTarget]
  split <;> rfl

include hrow hy hz in
theorem follows_endLoop (hbody : Balanced Stretch.bracket? body)
    (h : Landing p (front ++ y :: body) tape (.endLoop (opcodeCount (front.map (·.phrase)))) base
      value) : Follows io tokens p (front ++ y :: body) tape device := by
  have hloop := loop_of_stretches hrow hy hz hbody
  have hlength : (rowCommands (front ++ y :: body)).length =
      (rowCommands front).length + 1 + (rowCommands body).length := by
    rw [rowCommands_append, rowCommands_cons, List.length_append, List.length_append,
      Stretch.commands_of_beginLoop hy, List.length_singleton]
    omega
  have hcount : opcodeCount ((front ++ y :: body).map (·.phrase)) =
      opcodeCount (front.map (·.phrase)) + 1 + opcodeCount (body.map (·.phrase)) := by
    rw [List.map_append, List.map_cons, opcodeCount_append,
      opcodeCount_cons_of_makesOpcode (by rw [hy]; rfl)]
    omega
  apply h.follows_bracket hrow hy hz (hloop.step_endLoop io hlength (h.cell? device))
  intro steps
  rw [Machine.act, Plain.bracketTarget, hcount]
  split <;> rfl

end Brackets

end Landing

/-! ## All opcodes -/

/-- The move of an opcode leads to a cell, or off the tape. -/
theorem follows_of_landing (hc : Compiled tokens p tape.size)
    (hrow : stretches tokens = front ++ x :: rest) (hx : x.phrase.makesOpcode = true)
    (hfits : tape.Fits tape.size)
    (hget : p.get? (opcodeCount (front.map (·.phrase))) =
      some ⟨carried (front.map (·.phrase)), action⟩)
    (h : ∀ base value, Landing p front tape action base value →
      Follows io tokens p front tape device) : Follows io tokens p front tape device := by
  by_cases hholds : tape.Holds (tape.cursor + carried (front.map (·.phrase)))
  · obtain ⟨value, hvalue, -⟩ :=
      Plain.exists_cell (s := Plain.State.behind front tape device) hholds
    have hbase := (Int.toNat_of_nonneg hholds.1).symm
    exact h _ value ⟨hget, hc.inWord_carried hrow hfits, hbase, hvalue⟩
  · exact follows_of_not_holds hc hrow hx hfits hget hholds

/-- **Every dispatch is followed.** -/
theorem follows_of_makesOpcode (hc : Compiled tokens p tape.size)
    (hrow : stretches tokens = front ++ x :: rest) (hx : x.phrase.makesOpcode = true)
    (hfits : tape.Fits tape.size) : Follows io tokens p front tape device := by
  have hp := hc.ofPhrases
  have hbalanced := hc.balanced
  cases hphrase : x.phrase with
  | move d =>
    rw [hphrase] at hx
    cases hx
  | perform effect =>
    rw [hrow, List.map_append, List.map_cons, hphrase] at hp
    exact follows_of_landing hc hrow hx hfits (Program.get?_effect hp) fun base value h =>
      h.follows_effect hc hrow hphrase
  | beginLoop start =>
    rw [hrow] at hbalanced
    have hopening : x.bracket? = some .opening := by
      rw [Stretch.bracket?, hphrase]
      rfl
    obtain ⟨body, z, rest', rfl, hclosing, hbody⟩ := hbalanced.exists_end hopening
    obtain ⟨stop, hz⟩ := Phrase.exists_endLoop hclosing
    rw [hrow, List.map_append, List.map_cons, List.map_append, List.map_cons, hphrase, hz] at hp
    have hget := (Program.get?_loop hp ((balanced_map_iff (f := Stretch.phrase)).mpr hbody)).1
    exact follows_of_landing hc hrow hx hfits hget fun base value h =>
      Landing.follows_beginLoop hrow hphrase hz hbody h
  | endLoop stop =>
    rw [hrow] at hbalanced
    have hclosing : x.bracket? = some .closing := by
      rw [Stretch.bracket?, hphrase]
      rfl
    obtain ⟨front', y, body, rfl, hopening, hbody⟩ := hbalanced.exists_start hclosing
    obtain ⟨start, hy⟩ := Phrase.exists_beginLoop hopening
    -- the partner of the bracket lies in front of it
    have hrow' : stretches tokens = front' ++ y :: (body ++ x :: rest) := by
      rw [hrow, List.append_assoc, List.cons_append]
    rw [hrow', List.map_append, List.map_cons, List.map_append, List.map_cons, hphrase, hy] at hp
    have hget := (Program.get?_loop hp ((balanced_map_iff (f := Stretch.phrase)).mpr hbody)).2
    have hy' : y.phrase.makesOpcode = true := by rw [hy]; rfl
    have hfront : opcodeCount ((front' ++ y :: body).map (·.phrase)) =
        opcodeCount (front'.map (·.phrase)) + 1 + opcodeCount (body.map (·.phrase)) := by
      rw [List.map_append, List.map_cons, opcodeCount_append, opcodeCount_cons_of_makesOpcode hy']
      omega
    have hcarried : carried ((front' ++ y :: body).map (·.phrase)) =
        carried (body.map (·.phrase)) := by
      rw [List.map_append, List.map_cons, carried_append_cons hy']
    rw [← hfront, ← hcarried] at hget
    exact follows_of_landing hc hrow hx hfits hget fun base value h =>
      Landing.follows_endLoop hrow' hy hphrase hbody h

end Brainfuck
