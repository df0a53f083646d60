import Brainfuck.Proofs.Extent
import Brainfuck.Proofs.Placement
import Brainfuck.Proofs.Slices

/-!
# A compiled program never crashes

Nothing in a turn of the machine checks that a cell it uses is on the tape, that the end of a loop
is where its partner says, or that a number fits into a word. All this rests on what holds between
two turns (`Machine.Sound`): the program is well-formed and reaches no further than its text is
long, its position is at one of its opcodes or behind the last, and the cursor is on the tape. A
turn keeps it (`Machine.turn_sound`), so does a dispatch (`Session.dispatch_sound`), whether it goes
well or fails, and so does any sequence of calls, also of calls made after one has failed
(`Session.afterCalls_sound`).

Main result: `Program.compile_safe`.
-/

namespace Brainfuck

/-- The greatest number that fits into an unsigned word. -/
def greatestWord : Nat := 18446744073709551615

namespace Tape

variable {t t' : Tape} {offset : Int}

/-- A move to a position that fits into a word does not crash. -/
theorem not_crashed_of_moveBy {failure : Failure OffTape} (hword : t.InWord offset)
    (h : t.moveBy offset = .error failure) : ∃ e, failure = .reported e := by
  by_cases hholds : t.Holds (t.cursor + offset)
  · rw [moveBy_of_holds hword hholds] at h
    cases h
  · rw [moveBy_of_not_holds hword hholds] at h
    cases h
    exact ⟨_, rfl⟩

/-- The only effect that can fail is a copy. -/
theorem not_crashed_of_applied {effect : Effect} {value : UInt8} {failure : Failure OffTape}
    (hword : ∀ targets, effect = .copy targets → ∀ target ∈ targets, t.InWord target.offset)
    (h : t.applied effect value = (.error failure, t')) : ∃ e, failure = .reported e := by
  obtain ⟨targets, rfl, -, hspread⟩ := spread_of_applied_error h
  exact not_crashed_of_spread (hword targets rfl) hspread

end Tape

namespace Machine

/-! ## What a dispatch takes for granted -/

/-- The dispatch of the next opcode looks at the cell at `index`, or changes it. -/
inductive Uses (m : Machine) (index : Nat) : Prop
  /-- The cell where the cursor lands. -/
  | landed {move : Int} {action : Action} {t : Tape}
      (hget : m.program.get? m.position = some ⟨move, action⟩) (hmove : m.tape.moveBy move = .ok t)
      (hindex : index = t.cursor)
  /-- A target of a copy. -/
  | target {move : Int} {targets : List Target} {t : Tape} {target : Target}
      (hget : m.program.get? m.position = some ⟨move, .perform (.copy targets)⟩)
      (hmove : m.tape.moveBy move = .ok t) (htarget : target ∈ targets)
      (hindex : t.position? target.offset = .ok index)
  /-- A cell between the one where a scan starts and the one where it ends. -/
  | passed {move : Int} {d : Direction} {t : Tape}
      (hget : m.program.get? m.position = some ⟨move, .perform (.scan d)⟩)
      (hmove : m.tape.moveBy move = .ok t)
      (hindex : index ≤ t.cursor ∨ index ≤ (t.scan d).cursor)

/-- The numbers that the dispatch of the next opcode makes out of indices of opcodes fit into words,
and so does the number of opcodes executed so far. -/
structure InWords (m : Machine) : Prop where
  next_le : m.position + 1 ≤ greatestWord
  partner_le : ∀ move partner, m.program.get? m.position = some ⟨move, .beginLoop partner⟩ ∨
    m.program.get? m.position = some ⟨move, .endLoop partner⟩ → partner + 1 ≤ greatestWord
  steps_le : m.steps ≤ greatestWord

/-! ## What a turn keeps -/

/-- The machine is on its way through `p` on a tape of `size` cells. -/
structure Sound (m : Machine) (p : Program) (size : Nat) : Prop where
  program_eq : m.program = p
  position_le : m.position ≤ p.size
  placed : m.tape.Placed size

section Sound

variable {p : Program} {size bound : Nat} {m m' : Machine} {r : Turn}

theorem start_sound {t : Tape} (h : t.Placed size) (p : Program) : (start p t).Sound p size :=
  ⟨rfl, Nat.zero_le _, h⟩

theorem uses_lt (hsound : m.Sound p size) {index : Nat} (h : m.Uses index) : index < size := by
  have hlanded : ∀ {move : Int} {t : Tape}, m.tape.moveBy move = .ok t →
      t.cursor < t.size ∧ t.size = size := fun hmove =>
    ⟨(Tape.moveBy_eq_ok hmove).2.1, (hsound.placed.moveBy hmove).size_eq⟩
  cases h with
  | landed hget hmove hindex =>
    obtain ⟨hlt, rfl⟩ := hlanded hmove
    rw [hindex]
    exact hlt
  | target hget hmove htarget hindex =>
    obtain ⟨-, rfl⟩ := hlanded hmove
    exact (Tape.position?_eq_ok hindex).2
  | @passed move d t hget hmove hindex =>
    obtain ⟨hlt, rfl⟩ := hlanded hmove
    have hstop := Tape.scan_cursor_lt (d := d) hlt
    rw [Tape.size, Tape.cells_scan] at hstop
    rcases hindex with hindex | hindex
    · exact Nat.lt_of_le_of_lt hindex hlt
    · exact Nat.lt_of_le_of_lt hindex hstop

variable (hwellFormed : p.WellFormed) (hwithin : p.Within bound)
  (hword : ((bound + size : Nat) : Int) ≤ greatestPosition)

include hword in
theorem inWord_of_placed {t : Tape} (h : t.Placed size) {offset : Int}
    (hoffset : offset.natAbs ≤ bound) : t.InWord offset := by
  refine Tape.inWord_of_within hoffset h.cursor_le_size ?_
  rw [h.size_eq]
  exact hword

include hwellFormed in
/-- Both ends of a loop lie in the program. -/
theorem partner_lt {index partner : Nat} {move : Int}
    (h : p.get? index = some ⟨move, .beginLoop partner⟩ ∨
      p.get? index = some ⟨move, .endLoop partner⟩) : partner < p.size := by
  rcases h with h | h
  · exact (hwellFormed.loop_of_beginLoop _ _ _ h).1
  · have hloop := hwellFormed.loop_of_endLoop _ _ _ h
    exact Nat.lt_trans hloop.start_lt_stop (Program.lt_size_of_get? h)

section Acts

variable {t : Tape} {position steps : Nat} {action : Action} {value : UInt8}

/-- An opcode of the program leads to another, or to the end, and leaves the cursor on the tape. -/
theorem act_sound (hlt : position < p.size) (hplaced : t.Placed size)
    (hpartner : ∀ partner, action = .beginLoop partner ∨ action = .endLoop partner →
      partner < p.size)
    (hact : act action value ⟨p, t, position, steps⟩ = (r, m')) : m'.Sound p size := by
  cases act_cases hact with
  | beginLoop partner =>
    refine ⟨rfl, ?_, hplaced⟩
    dsimp only
    split
    · exact hpartner partner (.inl rfl)
    · exact hlt
  | endLoop partner =>
    refine ⟨rfl, ?_, hplaced⟩
    dsimp only
    split
    · exact hlt
    · exact hpartner partner (.inr rfl)
  | reads | writes => exact ⟨rfl, Nat.le_of_lt hlt, hplaced⟩
  | @applied effect _ _ happlied =>
    have hafter := Tape.applied_placed hplaced effect value
    rw [happlied] at hafter
    exact ⟨rfl, hlt, hafter⟩
  | @refused effect _ _ _ happlied =>
    have hafter := Tape.applied_placed hplaced effect value
    rw [happlied] at hafter
    exact ⟨rfl, Nat.le_of_lt hlt, hafter⟩

theorem not_crashed_of_act
    (hword : ∀ targets, action = .perform (.copy targets) → ∀ target ∈ targets,
      t.InWord target.offset)
    (hact : act action value ⟨p, t, position, steps⟩ = (r, m')) (crash : Crash) :
    r ≠ .failed (.crashed crash) := by
  cases act_cases hact with
  | beginLoop | endLoop | reads | writes | applied => nofun
  | refused hsilent happlied =>
    obtain ⟨e, rfl⟩ := Tape.not_crashed_of_applied
      (fun targets htargets => hword targets (congrArg _ htargets)) happlied
    nofun

end Acts

include hwellFormed hwithin hword in
/-- **A turn keeps the machine sound and does not crash.** Unless it halts, there was an opcode. -/
theorem turn_sound (h : m.Sound p size) (hturn : m.turn = (r, m')) :
    m'.Sound p size ∧ (∀ crash, r ≠ .failed (.crashed crash)) ∧
      (r ≠ .halted → m.position < p.size) := by
  obtain ⟨q, t, position, steps⟩ := m
  obtain ⟨rfl, hposition, hplaced⟩ := h
  dsimp only at hplaced hwithin
  cases turn_cases hturn with
  | halted hend => exact ⟨⟨rfl, hposition, hplaced⟩, fun _ => nofun, fun h => absurd rfl h⟩
  | refused hget hmove =>
    have hmoved := inWord_of_placed hword hplaced (hwithin.move_le _ _ _ hget)
    obtain ⟨e, rfl⟩ := Tape.not_crashed_of_moveBy hmoved hmove
    exact ⟨⟨rfl, hposition, hplaced⟩, fun _ => nofun, fun _ => Program.lt_size_of_get? hget⟩
  | landed hget hmove hcell hact =>
    have hlt := Program.lt_size_of_get? hget
    have hlanded := hplaced.moveBy hmove
    refine ⟨act_sound hlt hlanded ?_ hact, not_crashed_of_act ?_ hact, fun _ => hlt⟩
    · rintro partner (rfl | rfl)
      · exact partner_lt hwellFormed (.inl hget)
      · exact partner_lt hwellFormed (.inr hget)
    · rintro targets rfl target htarget
      exact inWord_of_placed hword hlanded (hwithin.offset_le _ _ _ hget target htarget)

end Sound

end Machine

namespace Session

variable {σ : Type} {io : Console σ} {p : Program} {size bound : Nat} {s s' : Session σ}

/-- Without a cell to land on, every opcode is refused and nothing changes. -/
theorem dispatch_of_no_cells (hwithin : p.Within bound)
    (hword : ((bound + 0 : Nat) : Int) ≤ greatestPosition) (h : s.machine.Sound p 0)
    (hfinished : s.machine.finished = false) :
    ∃ e, s.dispatch io = (.error (.reported (.offTape e)), s) := by
  obtain ⟨⟨q, t, position, steps⟩, device⟩ := s
  obtain ⟨rfl, -, hplaced⟩ := h
  dsimp only at hplaced hwithin
  cases hget : q.get? position with
  | none =>
    have hend : q.size ≤ position := Program.get?_eq_none_iff.mp hget
    rw [Machine.finished, decide_eq_true hend] at hfinished
    cases hfinished
  | some opcode =>
    obtain ⟨move, action⟩ := opcode
    have hinWord := Machine.inWord_of_placed hword hplaced (hwithin.move_le _ _ _ hget)
    have hnot : ¬t.Holds (t.cursor + move) := by
      unfold Tape.Holds
      rw [hplaced.size_eq]
      omega
    exact ⟨_, dispatch_of_failed (Machine.turn_of_not_holds hget hinWord hnot)⟩

section Sound

variable (hwellFormed : p.WellFormed) (hwithin : p.Within bound)
  (hword : ((bound + size : Nat) : Int) ≤ greatestPosition)

include hwellFormed hwithin hword

/-- **A dispatch keeps the machine sound and does not crash.** -/
theorem dispatch_sound (h : s.machine.Sound p size) {answer : Except (Failure Error) Unit}
    (hdispatch : s.dispatch io = (answer, s')) :
    s'.machine.Sound p size ∧ ∀ crash, answer ≠ .error (.crashed crash) := by
  obtain ⟨machine, device⟩ := s
  have hturned {r : Turn} {m' : Machine} (hturn : machine.turn = (r, m')) :=
    Machine.turn_sound hwellFormed hwithin hword h hturn
  cases dispatch_cases hdispatch with
  | halted hturn | moved hturn => exact ⟨(hturned hturn).1, fun _ => nofun⟩
  | readFailed hturn | writeFailed hturn => exact ⟨(hturned hturn).1, fun _ => nofun⟩
  | failed hturn =>
    obtain ⟨hsound, hcrash, -⟩ := hturned hturn
    refine ⟨hsound, ?_⟩
    intro crash hanswer
    cases hanswer
    exact hcrash crash rfl
  | @read m' byte device' hturn =>
    obtain ⟨hsound, -, hlt⟩ := hturned hturn
    have hposition := ((Machine.turn_counts hturn).not_moved nofun).1
    refine ⟨?_, fun _ => nofun⟩
    rw [Machine.receive_eq]
    exact ⟨hsound.program_eq, Nat.succ_le_of_lt (hposition ▸ hlt nofun),
      hsound.placed.congr (Tape.size_receive ..) (Tape.cursor_receive ..)⟩
  | wrote hturn =>
    obtain ⟨hsound, -, hlt⟩ := hturned hturn
    have hposition := ((Machine.turn_counts hturn).not_moved nofun).1
    exact ⟨⟨hsound.program_eq, Nat.succ_le_of_lt (hposition ▸ hlt nofun), hsound.placed⟩,
      fun _ => nofun⟩

theorem after_sound {n : Nat} (h : s.machine.Sound p size) (hafter : s.after io n = .ok s') :
    s'.machine.Sound p size := by
  induction n generalizing s with
  | zero =>
    cases hafter
    exact h
  | succ n ih =>
    obtain ⟨s₁, hdispatch, hrest⟩ := exists_dispatch_of_after hafter
    exact ih (dispatch_sound hwellFormed hwithin hword h hdispatch).1 hrest

/-- **A call keeps the machine sound and does not crash**, and counts what it executes. -/
theorem call_sound (io : Console σ) (h : s.machine.Sound p size) (c : Call) :
    (s.call io c).2.machine.Sound p size ∧
      (∀ crash, (s.call io c).1 ≠ .failed (.crashed crash)) ∧
      (s.call io c).2.machine.steps = s.machine.steps + s.executedBy io c := by
  rcases hcall : s.call io c with ⟨ending, s'⟩
  obtain ⟨s₁, hexecutes, hends⟩ := exists_executes_of_call hcall
  have hsound := after_sound hwellFormed hwithin hword h hexecutes.after
  cases hends with
  | completed => exact ⟨hsound, fun _ => nofun, hexecutes.steps⟩
  | goesOn hover =>
    refine ⟨hsound, ?_, hexecutes.steps⟩
    intro crash hending
    rw [show ending = _ from hending] at hover
    cases hover
  | failed hdispatch =>
    obtain ⟨hsound', hcrash⟩ := dispatch_sound hwellFormed hwithin hword hsound hdispatch
    refine ⟨hsound', ?_, (unchanged_of_error hdispatch).2.trans hexecutes.steps⟩
    intro crash hending
    cases hending
    exact hcrash crash rfl

/-- **Any sequence of calls keeps the machine sound**, and counts what is executed. -/
theorem afterCalls_sound (io : Console σ) (h : s.machine.Sound p size) (calls : List Call) :
    (s.afterCalls io calls).machine.Sound p size ∧
      (s.afterCalls io calls).machine.steps = s.machine.steps + s.executed io calls := by
  induction calls generalizing s with
  | nil => exact ⟨h, rfl⟩
  | cons c later ih =>
    obtain ⟨hsound, -, hsteps⟩ := call_sound hwellFormed hwithin hword io h c
    obtain ⟨hsound', hsteps'⟩ := ih hsound
    refine ⟨hsound', ?_⟩
    show (afterCalls io later (s.call io c).2).machine.steps = _
    rw [hsteps', hsteps, executed, Nat.add_assoc]

end Sound

/-- What holds in every state that a compiled program comes to. -/
structure Safe (io : Console σ) (p : Program) (size : Nat) (s : Session σ) : Prop where
  program_eq : s.machine.program = p
  position_le : s.machine.position ≤ p.size
  size_eq : s.machine.tape.size = size
  cursor_lt : 0 < size → s.machine.tape.cursor < size
  uses_lt : ∀ index, s.machine.Uses index → index < size
  inWords : s.machine.InWords
  not_crashed : ∀ c crash, (s.call io c).1 ≠ .failed (.crashed crash)
  /-- Without cells, an opcode that is left is refused, and nothing changes. -/
  refused : size = 0 → s.machine.finished = false →
    ∃ e, s.dispatch io = (.error (.reported (.offTape e)), s)

/-- A sound machine is safe as long as its count fits into a word. -/
theorem Safe.of_sound (hwellFormed : p.WellFormed) (hwithin : p.Within bound)
    (hword : ((bound + size : Nat) : Int) ≤ greatestPosition) (h : s.machine.Sound p size)
    (hsteps : s.machine.steps ≤ greatestWord) : s.Safe io p size where
  program_eq := h.program_eq
  position_le := h.position_le
  size_eq := h.placed.size_eq
  cursor_lt := h.placed.cursor_lt
  uses_lt := fun _ => Machine.uses_lt h
  inWords := by
    -- no index is beyond the length of the text, which is far below a word
    have hbound : p.size + 1 ≤ greatestWord := by
      have := hwithin.size_le
      unfold greatestPosition at hword
      unfold greatestWord
      omega
    refine ⟨?_, ?_, hsteps⟩
    · exact Nat.le_trans (Nat.succ_le_succ h.position_le) hbound
    · intro move partner hget
      rw [h.program_eq] at hget
      exact Nat.le_trans (Nat.le_succ_of_le (Machine.partner_lt hwellFormed hget)) hbound
  not_crashed := fun c => (call_sound hwellFormed hwithin hword io h c).2.1
  refused := by
    rintro rfl hfinished
    exact dispatch_of_no_cells hwithin hword h hfinished

end Session

namespace Program

/-- **A compiled program never crashes.** Whatever is done to the tape before, whatever the console
answers, and whatever calls are made, also after some have failed: the program stays where its
opcodes are, the cursor and every cell that is used are on the tape, the tape keeps its size, and no
number overflows. On a tape without cells every opcode is refused. -/
theorem compile_safe {σ : Type} (io : Console σ) (device : σ) {text : String} {p : Program}
    (hcompile : compile text = .ok p) {size : Nat}
    (hsize : ((text.utf8ByteSize + size : Nat) : Int) ≤ greatestPosition)
    (operations : List Tape.Operation) (calls : List Call)
    (hexecuted : Session.executed io calls
      ⟨.start p ((Tape.blank size).after operations), device⟩ ≤ greatestWord) :
    Session.Safe io p size
      (Session.afterCalls io calls ⟨.start p ((Tape.blank size).after operations), device⟩) := by
  have hlength := Plain.length_commandsOf_le text
  have hword : (((Plain.commandsOf text).length + size : Nat) : Int) ≤ greatestPosition := by omega
  have hwellFormed := wellFormed_of_compile hcompile
  have hwithin := compile_within hcompile
  have hstart := Machine.start_sound (Tape.after_placed (Tape.blank_placed size) operations) p
  obtain ⟨hsound, hsteps⟩ := Session.afterCalls_sound hwellFormed hwithin hword io
    (s := ⟨.start p _, device⟩) hstart calls
  refine .of_sound hwellFormed hwithin hword hsound ?_
  rw [hsteps]
  exact Nat.le_trans (Nat.le_of_eq (Nat.zero_add _)) hexecuted

/-- A byte is read, and then a copy moves the cursor and is refused at its target. The calls behind
that are refused already by their move. -/
theorem compile_safe_behind_failures :
    ∃ p s, compile ",<[-<+>]" = .ok p ∧
      ((",<[-<+>]".utf8ByteSize + 2 : Nat) : Int) ≤ greatestPosition ∧
      s = ⟨.start p ((Tape.blank 2).after [.set 7, .moveBy 5, .scan .right]),
        .start (.bytes [3])⟩ ∧
      Session.executed .fed [.dispatch, .dispatch, .dispatch, .run (fun _ => false) 9] s = 1 ∧
      (Session.afterCalls .fed [.dispatch, .dispatch] s).machine = ⟨p, ⟨#[7, 3], 0⟩, 1, 1⟩ ∧
      Session.Safe .fed p 2
        (Session.afterCalls .fed [.dispatch, .dispatch, .dispatch, .run (fun _ => false) 9] s) := by
  have hcompile : compile ",<[-<+>]" =
      .ok ⟨#[⟨0, .perform .read⟩, ⟨-1, .perform (.copy [⟨-1, 1⟩])⟩]⟩ := by decide +kernel
  exact ⟨_, _, hcompile, by decide +kernel, rfl, by decide +kernel, by decide +kernel,
    compile_safe .fed (.start (.bytes [3])) hcompile (by decide +kernel)
      [.set 7, .moveBy 5, .scan .right]
      [.dispatch, .dispatch, .dispatch, .run (fun _ => false) 9] (by decide +kernel)⟩

end Program

end Brainfuck
