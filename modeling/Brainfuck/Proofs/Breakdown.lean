import Brainfuck.Proofs.Leaving
import Brainfuck.Proofs.Safety

/-!
# What a failed dispatch leaves behind

A dispatch fails with the move of its opcode, with a byte that is refused, or with a target of a copy
(`Opcode.Fails`). Nothing comes back to where it was: the cursor stays where the move has led it, and
the targets in front of the one that is missing keep what they have received
(`Tape.copiedUpTo_of_spread`). So the same opcode, dispatched again, moves on from there
(`Session.MovesFrom`).

Main result: `Program.compile_failed_dispatch`.
-/

namespace Brainfuck

/-- `written` tells which bytes have been written so far. A read writes none, and neither does a write
that fails. -/
structure Console.Writes {σ : Type} (io : Console σ) (written : σ → List UInt8) : Prop where
  read : ∀ device, written (io.read device).2 = written device
  taken : ∀ byte device device', io.write byte device = (.ok (), device') →
    written device' = written device ++ [byte]
  refused : ∀ byte device e device', io.write byte device = (.error e, device') →
    written device' = written device

/-- What a scripted console has written is what it has taken. -/
theorem Console.scripted_writes (full : DeviceError) :
    (scripted full).Writes fun script => script.written.toList := by
  constructor
  case read =>
    rintro ⟨answers, room, written⟩
    cases answers <;> rfl
  case taken =>
    rintro byte ⟨answers, room, written⟩ device' h
    have hpush : (written.push byte).toList = written.toList ++ [byte] := Array.toList_push
    cases room with
    | none =>
      cases h
      exact hpush
    | some limit =>
      unfold scripted at h
      dsimp only at h
      split at h
      next =>
        cases h
        exact hpush
      next => cases h
  case refused =>
    rintro byte ⟨answers, room, written⟩ e device' h
    cases room with
    | none => cases h
    | some limit =>
      unfold scripted at h
      dsimp only at h
      split at h
      next => cases h
      next =>
        cases h
        rfl

/-! ## Copying up to a target -/

namespace Tape

/-- The value has been spread to the targets in front of `offset`, and to no other. -/
structure CopiedUpTo (t : Tape) (value : UInt8) (targets : List Target) (offset : Int)
    (t' : Tape) : Prop where
  cursor_eq : t'.cursor = t.cursor
  received : ∀ u ∈ targets, u.offset < offset → ∃ (index : Nat) (old : UInt8),
    (index : Int) = t.cursor + u.offset ∧ t.cells[index]? = some old ∧
      t'.cells[index]? = some (old + value * UInt8.ofNat u.factor)
  others : ∀ index : Nat,
    (∀ u ∈ targets, u.offset < offset → (index : Int) ≠ t.cursor + u.offset) →
      t'.cells[index]? = t.cells[index]?

variable {t t' : Tape} {value : UInt8} {targets : List Target}

/-- What the targets in front have received. -/
theorem copiedUpTo_of_front {front behind : List Target} {missing : Target} {cells : Array UInt8}
    {base : Nat}
    (hplaces : (front ++ missing :: behind).Pairwise fun s t => s.offset < t.offset)
    (hfront : ∀ u ∈ front, (Tape.mk cells base).Holds (base + u.offset)) :
    (Tape.mk cells base).CopiedUpTo value (front ++ missing :: behind) missing.offset
      ⟨raise (fun i => value * gainOf base front i) cells, base⟩ := by
  refine ⟨rfl, ?_, ?_⟩
  · intro u hu hlt
    have hu : u ∈ front := (mem_front_iff hplaces).mpr ⟨hu, hlt⟩
    obtain ⟨hnonneg, hsize⟩ := hfront u hu
    have hindex : (base + u.offset).toNat < cells.size := by
      change base + u.offset < cells.size at hsize
      omega
    have hoffset : ((base + u.offset).toNat : Int) - base = u.offset := by omega
    refine ⟨(base + u.offset).toNat, _, Int.toNat_of_nonneg hnonneg,
      Array.getElem?_eq_getElem hindex, ?_⟩
    rw [getElem?_raise, Array.getElem?_eq_getElem hindex, Option.map_some, gainOf, hoffset,
      tally_eq_factor (List.pairwise_append.mp hplaces).1 hu]
  · intro index hindex
    have hnone : gainOf base front index = 0 := by
      rw [gainOf, tally_eq_zero]
      · rfl
      · intro u hu hoffset
        obtain ⟨hu, hlt⟩ := (mem_front_iff hplaces).mp hu
        have hplace : (index : Int) ≠ base + u.offset := hindex u hu hlt
        omega
    rw [getElem?_raise, hnone, UInt8.mul_zero]
    cases cells[index]? with
    | none => rfl
    | some old => exact congrArg some (UInt8.add_zero old)

/-- **A copy that is refused** has come to the first target that is not on the tape, and stops there,
with the targets in front of it done. -/
theorem copiedUpTo_of_spread (hplaces : targets.Pairwise fun s t => s.offset < t.offset)
    (hword : ∀ u ∈ targets, t.InWord u.offset) {failure : Failure OffTape}
    (h : spread value targets t = (.error failure, t')) :
    ∃ missing ∈ targets, ¬t.Holds (t.cursor + missing.offset) ∧
      (∀ u ∈ targets, ¬t.Holds (t.cursor + u.offset) → missing.offset ≤ u.offset) ∧
      failure = .reported ⟨t.cursor + missing.offset, t.size⟩ ∧
      t.CopiedUpTo value targets missing.offset t' := by
  obtain ⟨cells, base⟩ := t
  by_cases hholds : ∀ u ∈ targets, (Tape.mk cells base).Holds (base + u.offset)
  · rw [spread_of_holds hword hholds] at h
    cases h
  · obtain ⟨front, missing, behind, rfl, hfront, hnot, hspread⟩ :=
      spread_of_not_holds value hword (by
        obtain ⟨u, hu⟩ := Classical.not_forall.mp hholds
        exact ⟨u, Classical.not_imp.mp hu⟩)
    rw [hspread] at h
    cases h
    refine ⟨missing, List.mem_append_right _ List.mem_cons_self, hnot, ?_, rfl,
      copiedUpTo_of_front hplaces hfront⟩
    intro u hu hmissed
    apply Int.not_lt.mp
    intro hlt
    exact hmissed (hfront u ((mem_front_iff hplaces).mpr ⟨hu, hlt⟩))

end Tape

/-! ## Dispatching an opcode again -/

namespace Session

variable {σ : Type}

/-- Whatever the console is, the next dispatch is one of `o`, which moves on from `cursor`. -/
structure MovesFrom (s : Session σ) (o : Opcode) (cursor : Int) : Prop where
  refused : ¬s.machine.tape.Holds (cursor + o.move) → ∀ io : Console σ, s.dispatch io =
    (.error (.reported (.offTape ⟨cursor + o.move, s.machine.tape.size⟩)), s)
  landed : s.machine.tape.Holds (cursor + o.move) → ∀ io : Console σ,
    ((s.dispatch io).2.machine.tape.cursor : Int) = cursor + o.move

theorem movesFrom_of_get {s : Session σ} {o : Opcode}
    (hget : s.machine.program.get? s.machine.position = some o)
    (hword : s.machine.tape.InWord o.move) (hscan : ∀ d, o.action ≠ .perform (.scan d)) :
    s.MovesFrom o s.machine.tape.cursor := by
  obtain ⟨⟨p, t, position, steps⟩, device⟩ := s
  dsimp only at hget hword ⊢
  constructor
  · intro hnot io
    exact dispatch_of_failed (Machine.turn_of_not_holds hget hword hnot)
  · intro hholds io
    have hmove := Tape.moveBy_of_holds hword hholds
    have hlanded : (((t.cursor + o.move).toNat : Nat) : Int) = t.cursor + o.move :=
      Int.toNat_of_nonneg hholds.1
    rcases hdispatch : dispatch io ⟨⟨p, t, position, steps⟩, device⟩ with ⟨answer, s'⟩
    have hturned {r : Turn} {m' : Machine} (hturn : Machine.turn ⟨p, t, position, steps⟩ = (r, m')) :
        (m'.tape.cursor : Int) = t.cursor + o.move := by
      rw [Machine.cursor_of_turn hget hmove hscan hturn]
      exact hlanded
    cases dispatch_cases hdispatch with
    | halted hturn | moved hturn | failed hturn | readFailed hturn | writeFailed hturn =>
      exact hturned hturn
    | read hturn =>
      rw [Machine.receive_eq]
      exact (congrArg Int.ofNat (Tape.cursor_receive ..)).trans (hturned hturn)
    | wrote hturn =>
      have hcursor := hturned hturn
      exact hcursor

end Session

/-! ## Failing -/

namespace Opcode

/-- The move of the opcode leads to a cell, where the value is `value`. -/
structure Lands (o : Opcode) (t landed : Tape) (value : UInt8) : Prop where
  cursor_eq : (landed.cursor : Int) = t.cursor + o.move
  cells_eq : landed.cells = t.cells
  cell : landed.cells[landed.cursor]? = some value

/-- How the dispatch of an opcode can fail, and what it leaves of the tape and of the console. -/
inductive Fails {σ : Type} (io : Console σ) (o : Opcode) (t : Tape) (device : σ) :
    Failure Error → Tape → σ → Prop
  /-- The move leads off the tape. -/
  | move (hnot : ¬t.Holds (t.cursor + o.move)) :
      Fails io o t device (.reported (.offTape ⟨t.cursor + o.move, t.size⟩)) t device
  /-- The byte could not be read. -/
  | read {landed : Tape} {value : UInt8} {e : DeviceError} {device' : σ}
      (hlands : o.Lands t landed value) (haction : o.action = .perform .read)
      (hread : io.read device = (.error e, device')) :
      Fails io o t device (.reported (.io e)) landed device'
  /-- The value of the cell could not be written. -/
  | write {landed : Tape} {value : UInt8} {e : DeviceError} {device' : σ}
      (hlands : o.Lands t landed value) (haction : o.action = .perform .write)
      (hwrite : io.write value device = (.error e, device')) :
      Fails io o t device (.reported (.io e)) landed device'
  /-- A target is missing. The cell under the cursor, which is not zero, has not been cleared. -/
  | copy {landed t' : Tape} {value : UInt8} {missing : Target} (hlands : o.Lands t landed value)
      (haction : o.action = .perform (.copy o.targets)) (hvalue : value ≠ 0)
      (hmisses : o.Misses t missing) (hleast : ∀ u, o.Misses t u → missing.offset ≤ u.offset)
      (hcopied : landed.CopiedUpTo value o.targets missing.offset t')
      (hkept : t'.cells[t'.cursor]? = some value) :
      Fails io o t device (.reported (.offTape ⟨t.cursor + o.move + missing.offset, t.size⟩)) t'
        device

variable {σ : Type} {io : Console σ} {o : Opcode} {t t' : Tape} {device device' : σ}
  {failure : Failure Error}

theorem Lands.of_moveBy {value : UInt8} (hmove : t.moveBy o.move = .ok t')
    (hcell : t'.cells[t'.cursor]? = some value) : o.Lands t t' value :=
  ⟨(Tape.moveBy_eq_ok hmove).1, (Tape.moveBy_eq_ok hmove).2.2, hcell⟩

theorem Lands.holds {value : UInt8} (h : o.Lands t t' value) : t.Holds (t.cursor + o.move) := by
  obtain ⟨hlt, -⟩ := Array.getElem?_eq_some_iff.mp h.cell
  rw [← h.cursor_eq]
  exact (Tape.holds_congr (congrArg Array.size h.cells_eq)).mp (Tape.holds_natCast hlt 0)

/-- Where there are cells is the same from both tapes. -/
theorem Lands.holds_iff {value : UInt8} (h : o.Lands t t' value) (offset : Int) :
    t'.Holds (t'.cursor + offset) ↔ t.Holds (t.cursor + o.move + offset) := by
  rw [h.cursor_eq]
  exact Tape.holds_congr (congrArg Array.size h.cells_eq)

/-- A failed dispatch has written nothing. -/
theorem Fails.written_eq (h : o.Fails io t device failure t' device') {written : σ → List UInt8}
    (hio : io.Writes written) : written device' = written device := by
  cases h with
  | move | copy => rfl
  | read hlands haction hread =>
    have hkept := hio.read device
    rw [hread] at hkept
    exact hkept
  | write hlands haction hwrite => exact hio.refused _ _ _ _ hwrite

/-- A move off the tape changes nothing. -/
theorem Fails.of_not_holds (h : o.Fails io t device failure t' device')
    (hnot : ¬t.Holds (t.cursor + o.move)) :
    failure = .reported (.offTape ⟨t.cursor + o.move, t.size⟩) ∧ t' = t ∧ device' = device := by
  cases h with
  | move => exact ⟨rfl, rfl, rfl⟩
  | read hlands | write hlands | copy hlands => exact absurd hlands.holds hnot

/-- An opcode that fails behind its move is no scan, and the cursor is where the move has led it. -/
theorem Fails.of_holds (h : o.Fails io t device failure t' device')
    (hholds : t.Holds (t.cursor + o.move)) :
    (t'.cursor : Int) = t.cursor + o.move ∧ ∀ d, o.action ≠ .perform (.scan d) := by
  cases h with
  | move hnot => exact absurd hholds hnot
  | read hlands haction | write hlands haction =>
    rw [haction]
    exact ⟨hlands.cursor_eq, nofun⟩
  | copy hlands haction hvalue hmisses hleast hcopied hkept =>
    rw [haction, hcopied.cursor_eq]
    exact ⟨hlands.cursor_eq, nofun⟩

end Opcode

namespace Machine

variable {p : Program} {t : Tape} {position steps bound : Nat} {m' : Machine}

theorem lands_of_asks (h : turn ⟨p, t, position, steps⟩ = (.asks, m')) :
    ∃ o value, p.get? position = some o ∧ o.action = .perform .read ∧ o.Lands t m'.tape value := by
  cases turn_cases h with
  | landed hget hmove hcell hact =>
    cases act_cases hact with
    | reads => exact ⟨_, _, hget, rfl, .of_moveBy hmove hcell⟩

theorem lands_of_offers {byte : UInt8} (h : turn ⟨p, t, position, steps⟩ = (.offers byte, m')) :
    ∃ o, p.get? position = some o ∧ o.action = .perform .write ∧ o.Lands t m'.tape byte := by
  cases turn_cases h with
  | landed hget hmove hcell hact =>
    cases act_cases hact with
    | writes => exact ⟨_, hget, rfl, .of_moveBy hmove hcell⟩

section Compiled

variable (hwellFormed : p.WellFormed) (hwithin : p.Within bound)
  (hword : ((bound + t.size : Nat) : Int) ≤ greatestPosition)

include hwellFormed hwithin hword in
/-- A copy fails with the least of the targets that are missing. -/
theorem fails_of_spread {σ : Type} (io : Console σ) (device : σ) (hplaced : t.Placed t.size)
    {move : Int} {targets : List Target} {landed t' : Tape} {value : UInt8}
    {failure : Failure OffTape} (hget : p.get? position = some ⟨move, .perform (.copy targets)⟩)
    (hmove : t.moveBy move = .ok landed) (hcell : landed.cells[landed.cursor]? = some value)
    (hvalue : value ≠ 0) (hspread : landed.spread value targets = (.error failure, t')) :
    (Opcode.mk move (.perform (.copy targets))).Fails io t device (failure.map .offTape) t'
      device := by
  have hlanded := hplaced.moveBy hmove
  have hlands : (Opcode.mk move (.perform (.copy targets))).Lands t landed value :=
    .of_moveBy hmove hcell
  obtain ⟨-, hside, -, hplaces⟩ := hwellFormed.effects _ _ _ hget
  have hfits : ∀ u ∈ targets, landed.InWord u.offset := fun u hu =>
    inWord_of_placed hword hlanded (hwithin.offset_le _ _ _ hget u hu)
  obtain ⟨missing, hmem, hnot, hleast, rfl, hcopied⟩ :=
    Tape.copiedUpTo_of_spread hplaces hfits hspread
  have hmissed (u : Target) := not_congr (hlands.holds_iff u.offset)
  -- no target is the copied cell itself
  have hkept : t'.cells[t'.cursor]? = some value := by
    rw [hcopied.cursor_eq, ← hcell]
    refine hcopied.others _ fun u hu _ => ?_
    have hne : u.offset ≠ 0 := by
      rcases hside with hright | hleft
      · exact Int.ne_of_gt (hright u hu)
      · exact Int.ne_of_lt (hleft u hu)
    omega
  have hfailure : Failure.map Error.offTape (.reported ⟨landed.cursor + missing.offset,
      landed.size⟩) = .reported (.offTape ⟨t.cursor + move + missing.offset, t.size⟩) := by
    rw [hlands.cursor_eq, hlanded.size_eq]
    rfl
  rw [hfailure]
  exact .copy hlands rfl hvalue ⟨hmem, (hmissed missing).mp hnot⟩
    (fun u hu => hleast u hu.1 ((hmissed u).mpr hu.2)) hcopied hkept

include hwellFormed hwithin hword in
/-- A turn fails with its move or with a target. -/
theorem fails_of_turn {σ : Type} (io : Console σ) (device : σ) (hplaced : t.Placed t.size)
    {failure : Failure Error} (h : turn ⟨p, t, position, steps⟩ = (.failed failure, m')) :
    ∃ o, p.get? position = some o ∧ o.Fails io t device failure m'.tape device := by
  cases turn_cases h with
  | @refused move action _ hget hmove =>
    have hfits := inWord_of_placed hword hplaced (hwithin.move_le _ _ _ hget)
    by_cases hholds : t.Holds (t.cursor + move)
    · rw [Tape.moveBy_of_holds hfits hholds] at hmove
      cases hmove
    · rw [Tape.moveBy_of_not_holds hfits hholds] at hmove
      cases hmove
      exact ⟨_, hget, .move hholds⟩
  | landed hget hmove hcell hact =>
    cases act_cases hact with
    | refused hsilent happlied =>
      obtain ⟨targets, rfl, hvalue, hspread⟩ := Tape.spread_of_applied_error happlied
      exact ⟨_, hget, fails_of_spread hwellFormed hwithin hword io device hplaced hget hmove hcell
        hvalue hspread⟩

end Compiled

end Machine

namespace Session

variable {σ : Type} {io : Console σ} {p : Program} {bound : Nat} {s s' : Session σ}
  {failure : Failure Error}

/-- What a failed dispatch of `o` leaves behind. -/
structure FailedDispatch (io : Console σ) (o : Opcode) (s : Session σ) (failure : Failure Error)
    (s' : Session σ) : Prop where
  program_eq : s'.machine.program = s.machine.program
  position_eq : s'.machine.position = s.machine.position
  steps_eq : s'.machine.steps = s.machine.steps
  written_eq : ∀ written, io.Writes written → written s'.device = written s.device
  /-- Where the move leads off the tape, this is reported, and nothing has changed. -/
  refused : ¬s.machine.tape.Holds (s.machine.tape.cursor + o.move) →
    failure = .reported (.offTape ⟨s.machine.tape.cursor + o.move, s.machine.tape.size⟩) ∧ s' = s
  fails : o.Fails io s.machine.tape s.device failure s'.machine.tape s'.device
  /-- If no read and no write has failed, none has been tried: the console does not matter. -/
  silent : (∀ e, failure ≠ .reported (.io e)) → ∀ io' : Console σ,
    s.dispatch io' = (.error failure, s')
  /-- The cursor has been moved, and is moved once more when the opcode is dispatched again. -/
  again : s.machine.tape.Holds (s.machine.tape.cursor + o.move) →
    s'.MovesFrom o (s.machine.tape.cursor + o.move)

theorem eq_of_parts (hprogram : s'.machine.program = s.machine.program)
    (htape : s'.machine.tape = s.machine.tape) (hposition : s'.machine.position = s.machine.position)
    (hsteps : s'.machine.steps = s.machine.steps) (hdevice : s'.device = s.device) : s' = s := by
  obtain ⟨⟨p, t, position, steps⟩, device⟩ := s
  obtain ⟨⟨p', t', position', steps'⟩, device'⟩ := s'
  cases hprogram
  cases htape
  cases hposition
  cases hsteps
  cases hdevice
  rfl

/-- Unless a read or a write has failed, the console has not been asked. -/
theorem dispatch_of_not_io (hdispatch : s.dispatch io = (.error failure, s'))
    (hfailure : ∀ e, failure ≠ .reported (.io e)) (io' : Console σ) :
    s.dispatch io' = (.error failure, s') := by
  obtain ⟨machine, device⟩ := s
  cases dispatch_cases hdispatch with
  | failed hturn => exact dispatch_of_failed hturn
  | readFailed | writeFailed => exact absurd rfl (hfailure _)

variable (hwellFormed : p.WellFormed) (hwithin : p.Within bound) (hprogram : s.machine.program = p)
  (hword : ((bound + s.machine.tape.size : Nat) : Int) ≤ greatestPosition)
  (hcursor : s.machine.tape.cursor < s.machine.tape.size)
  (hdispatch : s.dispatch io = (.error failure, s'))

include hwithin hprogram hword hdispatch in
/-- The same opcode moves on from the cell where it has failed. -/
theorem movesFrom_of_fails {o : Opcode} (hget : p.get? s.machine.position = some o)
    (hfails : o.Fails io s.machine.tape s.device failure s'.machine.tape s'.device)
    (hholds : s.machine.tape.Holds (s.machine.tape.cursor + o.move)) :
    s'.MovesFrom o (s.machine.tape.cursor + o.move) := by
  obtain ⟨hlanded, hscan⟩ := hfails.of_holds hholds
  have hsize := size_of_dispatch hdispatch
  have hplaced : s'.machine.tape.Placed s.machine.tape.size := by
    refine .of_lt hsize ?_
    rw [hsize]
    have := hholds.2
    omega
  have hfits := Machine.inWord_of_placed hword hplaced (hwithin.move_le _ _ _ hget)
  have hnext : s'.machine.program.get? s'.machine.position = some o := by
    rw [program_of_dispatch hdispatch, (unchanged_of_error hdispatch).1, hprogram]
    exact hget
  rw [← hlanded]
  exact movesFrom_of_get hnext hfits hscan

include hwellFormed hwithin hprogram hword hcursor hdispatch

/-- A dispatch fails with its move, with a byte or with a target. -/
theorem fails_of_dispatch :
    ∃ o, p.get? s.machine.position = some o ∧
      o.Fails io s.machine.tape s.device failure s'.machine.tape s'.device := by
  obtain ⟨⟨q, t, position, steps⟩, device⟩ := s
  cases hprogram
  cases dispatch_cases hdispatch with
  | failed hturn =>
    exact Machine.fails_of_turn hwellFormed hwithin hword io device (.of_lt rfl hcursor) hturn
  | readFailed hturn hread =>
    obtain ⟨o, value, hget, haction, hlands⟩ := Machine.lands_of_asks hturn
    exact ⟨o, hget, .read hlands haction hread⟩
  | writeFailed hturn hwrite =>
    obtain ⟨o, hget, haction, hlands⟩ := Machine.lands_of_offers hturn
    exact ⟨o, hget, .write hlands haction hwrite⟩

/-- **A dispatch that fails** leaves everything as it is but the cursor and the targets of a copy. -/
theorem exists_failedDispatch :
    ∃ o, p.get? s.machine.position = some o ∧ s.FailedDispatch io o failure s' := by
  obtain ⟨o, hget, hfails⟩ :=
    fails_of_dispatch hwellFormed hwithin hprogram hword hcursor hdispatch
  have hprogram' := program_of_dispatch hdispatch
  obtain ⟨hposition, hsteps⟩ := unchanged_of_error hdispatch
  refine ⟨o, hget, hprogram', hposition, hsteps, fun _ => hfails.written_eq, fun hnot => ?_, hfails,
    dispatch_of_not_io hdispatch, movesFrom_of_fails hwithin hprogram hword hdispatch hget hfails⟩
  obtain ⟨hfailure, htape, hdevice⟩ := hfails.of_not_holds hnot
  exact ⟨hfailure, eq_of_parts hprogram' htape hposition hsteps hdevice⟩

end Session

namespace Program

/-- **What a failed dispatch of a compiled program leaves behind.** The position in the program, the
count of opcodes and the bytes written are what they were. If the move of the opcode leads off the
tape, that is what is reported, and nothing at all has changed. Otherwise the cursor stays where the
move has led it, and the cells are as they were, except that a copy has already added to the targets
in front of the first one that is missing, which is the one that is reported. -/
theorem compile_failed_dispatch {σ : Type} {io : Console σ} {text : String} {p : Program}
    (hcompile : compile text = .ok p) {s s' : Session σ} (hprogram : s.machine.program = p)
    (hcursor : s.machine.tape.cursor < s.machine.tape.size)
    (hsize : ((text.utf8ByteSize + s.machine.tape.size : Nat) : Int) ≤ greatestPosition)
    {failure : Failure Error} (hdispatch : s.dispatch io = (.error failure, s')) :
    ∃ o, p.get? s.machine.position = some o ∧ s.FailedDispatch io o failure s' := by
  have hlength := Plain.length_commandsOf_le text
  exact Session.exists_failedDispatch (wellFormed_of_compile hcompile) (compile_within hcompile)
    hprogram (by omega) hcursor hdispatch

/-- A copy that reaches one of its two targets. Dispatched again, it moves on to the last cell. -/
theorem compile_failed_dispatch_of_copy :
    ∃ p s s', compile ">[->+>++<<]" = .ok p ∧
      s = Session.mk ⟨p, ⟨#[0, 5, 7], 0⟩, 0, 0⟩ (Script.mk [] (some 0) #[]) ∧
      ((">[->+>++<<]".utf8ByteSize + 3 : Nat) : Int) ≤ greatestPosition ∧
      s.dispatch (.scripted ⟨"full"⟩) = (.error (.reported (.offTape ⟨3, 3⟩)), s') ∧
      s'.machine = ⟨p, ⟨#[0, 5, 12], 1⟩, 0, 0⟩ ∧
      (∃ o, p.get? 0 = some o ∧
        s.FailedDispatch (.scripted ⟨"full"⟩) o (.reported (.offTape ⟨3, 3⟩)) s') ∧
      s'.device.written.toList = s.device.written.toList ∧
      (s'.dispatch (.scripted ⟨"full"⟩)).2.machine.tape.cursor = 2 := by
  have hcompile : compile ">[->+>++<<]" =
      .ok ⟨#[⟨1, .perform (.copy [⟨1, 1⟩, ⟨2, 2⟩])⟩]⟩ := by decide +kernel
  have hturn : Machine.turn
      ⟨⟨#[⟨1, .perform (.copy [⟨1, 1⟩, ⟨2, 2⟩])⟩]⟩, ⟨#[0, 5, 7], 0⟩, 0, 0⟩ =
      (.failed (.reported (.offTape ⟨3, 3⟩)),
        ⟨⟨#[⟨1, .perform (.copy [⟨1, 1⟩, ⟨2, 2⟩])⟩]⟩, ⟨#[0, 5, 12], 1⟩, 0, 0⟩) := by
    decide +kernel
  have hdispatch : Session.dispatch (.scripted ⟨"full"⟩) ⟨_, ⟨[], some 0, #[]⟩⟩ = _ :=
    Session.dispatch_of_failed hturn
  obtain ⟨o, hget, hfailed⟩ :=
    compile_failed_dispatch hcompile rfl (by decide) (by decide +kernel) hdispatch
  cases hget
  have hagain := (hfailed.again ⟨by decide, by decide⟩).landed ⟨by decide, by decide⟩
    (.scripted ⟨"full"⟩)
  exact ⟨_, _, _, hcompile, rfl, by decide +kernel, hdispatch, rfl, ⟨_, rfl, hfailed⟩,
    hfailed.written_eq _ (Console.scripted_writes _), Int.ofNat_inj.mp hagain⟩

end Program

end Brainfuck
