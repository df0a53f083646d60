import Brainfuck.Proofs.Preservation
import Brainfuck.Proofs.Slices

/-!
# Where runs leave the tape

A run of the machine that fails for a cell that is not on the tape is one in which the plain
interpreter comes to such a cell too (`exists_offTape_of_run`). The other way round there are two
cases, told apart by the command at which the plain interpreter stops. If it is the `]` of a loop
that is nothing but a move, the machine stays at the edge and goes on (`run_of_scan`); if not, the
machine fails, with nothing read or written in between (`run_offTape`).

Main result: `Program.compile_faults`.
-/

namespace Brainfuck

/-- The outermost cell that way. -/
def Tape.edge (t : Tape) : Direction → Nat
  | .left => 0
  | .right => t.size - 1

theorem Tape.Clamped.cursor_eq {t : Tape} {d : Direction} (h : t.Clamped d)
    (hcursor : t.cursor < t.size) : t.cursor = t.edge d := by
  have hedge := h.edge
  unfold Tape.Holds at hedge
  cases d with
  | left =>
    show t.cursor = 0
    simp only [Direction.unit] at hedge
    omega
  | right =>
    show t.cursor = t.size - 1
    simp only [Direction.unit] at hedge
    omega

/-- The index of the opcode to which the command at `position` of a text belongs. -/
def Program.opcodeOf (text : String) (position : Nat) : Nat :=
  opcodeIndex (stretches (Lexer.ofText text).tokens) position

/-- The next dispatch is a scan, which comes to the edge of the tape without finding a zero. -/
structure Session.Clamps {σ : Type} (io : Console σ) (d : Direction) (S S' : Session σ) : Prop where
  opcode : ∃ move, S.machine.program.get? S.machine.position = some ⟨move, .perform (.scan d)⟩
  dispatch : S.dispatch io = (.ok (), S')
  cells : S'.machine.tape.cells = S.machine.tape.cells
  cursor : S'.machine.tape.cursor = S'.machine.tape.edge d
  nonzero : ∃ value, value ≠ 0 ∧ S'.machine.tape.cells[S'.machine.tape.cursor]? = some value
  next : S'.machine.position = S.machine.position + 1
  device : S'.device = S.device

section Runs

variable {σ : Type} {io : Console σ} {tokens : List Token} {p : Program} {start : Tape}
  {device₀ : σ} (hc : Compiled tokens p start.size) (hcursor : start.cursor < start.size)

include hc hcursor

/-- If the plain interpreter leaves the tape, but not at the end of a scan, so does the machine, in
the dispatch of the opcode to which the command belongs. -/
theorem run_offTape {n : Nat} {s : Plain.State σ}
    (h : Plain.after io (tokens.map (·.command)) n (.start start device₀) = .offTape s)
    (hscan : ∀ d, ¬Plain.ClosesScan (tokens.map (·.command)) d s.position) :
    ∃ k S e machine, (Session.mk (.start p start) device₀).after io k = .ok S ∧
      S.machine.position = opcodeIndex (stretches tokens) s.position ∧
      ∀ budget, k < budget → Session.run io (fun _ => false) budget ⟨.start p start, device₀⟩ =
        (.failed (.reported (.offTape e)), ⟨machine, s.device⟩) := by
  obtain ⟨j, front, tape, device, hmeeting, hstops⟩ := exists_stop hc hcursor h nofun
  cases hstops with
  | offTape noScan index unchanged dispatch =>
    subst unchanged
    obtain ⟨machine, hdispatch⟩ := dispatch j
    exact ⟨j, _, _, machine, hmeeting.session, index.symm, fun budget hbudget =>
      Session.run_of_error hmeeting.session hdispatch hbudget⟩
  | clamped scan => exact absurd scan (hscan _)

/-- If the plain interpreter leaves the tape at the end of a scan, the machine stays at the edge,
and goes on from there. -/
theorem run_of_scan {n : Nat} {s : Plain.State σ} {d : Direction}
    (h : Plain.after io (tokens.map (·.command)) n (.start start device₀) = .offTape s)
    (hscan : Plain.ClosesScan (tokens.map (·.command)) d s.position) :
    ∃ k S S', (Session.mk (.start p start) device₀).after io k = .ok S ∧
      S.machine.position = opcodeIndex (stretches tokens) s.position ∧ S.device = s.device ∧
      S.Clamps io d S' ∧
      ∀ more, Session.run io (fun _ => false) (k + 1 + more) ⟨.start p start, device₀⟩ =
        Session.runFrom io (fun _ => false) (k + 1) more S' := by
  obtain ⟨j, front, tape, device, hmeeting, hstops⟩ := exists_stop hc hcursor h nofun
  cases hstops with
  | offTape noScan => exact absurd hscan (noScan d)
  | clamped scan index unchanged opcode dispatch cells clamped fits =>
    obtain rfl := scan.unique hscan
    have hafter := Session.after_step hmeeting.session (dispatch j)
    refine ⟨j, _, _, hmeeting.session, index.symm, unchanged.symm,
      ⟨⟨_, opcode⟩, dispatch j, cells, clamped.cursor_eq fits.cursor_lt, clamped.nonzero, rfl, rfl⟩,
      fun more => ?_⟩
    have hrun := Session.runFrom_of_after hafter 0 more
    rwa [Nat.zero_add] at hrun

/-- If the machine leaves the tape, in the dispatch behind `k` others, the plain interpreter has left
it behind a meeting that is no later. -/
theorem exists_stop_of_run {expired : Nat → Bool} {budget : Nat} {e : OffTape} {S : Session σ}
    (h : Session.run io expired budget ⟨.start p start, device₀⟩ =
      (.failed (.reported (.offTape e)), S)) :
    ∃ k S₀, (Session.mk (.start p start) device₀).after io k = .ok S₀ ∧
      S₀.dispatch io = (.error (.reported (.offTape e)), S) ∧
      ∃ n s j front tape device,
        Plain.after io (tokens.map (·.command)) n (.start start device₀) = .offTape s ∧ j ≤ k ∧
        Meeting io tokens p start device₀ j front tape device ∧
        Stops io tokens p front tape device (.offTape s) := by
  obtain ⟨k, S₀, hafter, hfails⟩ := Session.exists_after_of_runFrom h
  refine ⟨k, S₀, hafter, hfails, ?_⟩
  have herror := Session.after_of_error hafter hfails (Nat.lt_succ_self k)
  obtain ⟨j, front, tape, device, hle, hmeeting, heq⟩ :=
    exists_meeting io device₀ hc hcursor (k + 1)
  have hne : j ≠ k + 1 := by
    rintro rfl
    rw [hmeeting.session] at herror
    cases herror
  obtain ⟨n, r, hplain, hstops⟩ := heq.resolve_left hne
  have hlt : j < k + 1 := by omega
  cases hstops with
  | finished unchanged last =>
    -- the machine would have come to the end of the program before
    have hfinished : (Session.behind p front tape device j).machine.finished = true :=
      decide_eq_true (Nat.le_of_eq last.symm)
    rw [Session.after_of_finished hmeeting.session hfinished hle] at herror
    cases herror
  | failed dispatch =>
    obtain ⟨machine, hdispatch⟩ := dispatch j
    rw [Session.after_of_error hmeeting.session hdispatch hlt] at herror
    cases herror
  | offTape noScan index unchanged dispatch leaves =>
    exact ⟨n, _, j, front, tape, device, hplain, Nat.le_of_lt_succ hlt, hmeeting,
      .offTape noScan index unchanged dispatch leaves⟩
  | clamped scan index unchanged opcode dispatch cells clamped fits =>
    exact ⟨n, _, j, front, tape, device, hplain, Nat.le_of_lt_succ hlt, hmeeting,
      .clamped scan index unchanged opcode dispatch cells clamped fits⟩

/-- If the machine leaves the tape, so does the plain interpreter, at a command of that opcode or of
one before. -/
theorem exists_offTape_of_run {expired : Nat → Bool} {budget : Nat} {e : OffTape} {S : Session σ}
    (h : Session.run io expired budget ⟨.start p start, device₀⟩ =
      (.failed (.reported (.offTape e)), S)) :
    ∃ k S₀, (Session.mk (.start p start) device₀).after io k = .ok S₀ ∧
      S₀.dispatch io = (.error (.reported (.offTape e)), S) ∧
      ∃ n s j S₁, Plain.after io (tokens.map (·.command)) n (.start start device₀) = .offTape s ∧
        j ≤ k ∧ (Session.mk (.start p start) device₀).after io j = .ok S₁ ∧
        S₁.machine.position = opcodeIndex (stretches tokens) s.position ∧ S₁.device = s.device := by
  obtain ⟨k, S₀, hafter, hfails, n, s, j, front, tape, device, hplain, hle, hmeeting, hstops⟩ :=
    exists_stop_of_run hc hcursor h
  refine ⟨k, S₀, hafter, hfails, n, s, j, _, hplain, hle, hmeeting.session, ?_⟩
  cases hstops with
  | offTape noScan index unchanged => exact ⟨index.symm, unchanged.symm⟩
  | clamped scan index unchanged => exact ⟨index.symm, unchanged.symm⟩

end Runs

namespace Program

/-- **A compiled text leaves the tape where the text does**, except at the end of a scan. If the
program fails for a cell off the tape, the text has come to one at that opcode or before. If the text
comes to one, the program fails at that opcode, unless it is that of a scan, which then stays at the
edge. -/
theorem compile_faults {σ : Type} (io : Console σ) (device : σ) {text : String} {t : Tape}
    (hbalanced : Balanced byteBracket? text.toUTF8.toList) (hcursor : t.cursor < t.size)
    (hsize : ((text.utf8ByteSize + t.size : Nat) : Int) ≤ greatestPosition) :
    ∃ p, compile text = .ok p ∧
      (∀ expired budget e S,
        Session.run io.logged expired budget ⟨.start p t, (device, [])⟩ =
          (.failed (.reported (.offTape e)), S) →
        ∃ k S₀, (Session.mk (.start p t) (device, [])).after io.logged k = .ok S₀ ∧
          S₀.dispatch io.logged = (.error (.reported (.offTape e)), S) ∧
          ∃ n s j S₁,
            Plain.after io.logged (Plain.commandsOf text) n (.start t (device, [])) = .offTape s ∧
            j ≤ k ∧ (Session.mk (.start p t) (device, [])).after io.logged j = .ok S₁ ∧
            S₁.machine.position = opcodeOf text s.position ∧ S₁.device = s.device) ∧
      (∀ n s,
        Plain.after io.logged (Plain.commandsOf text) n (.start t (device, [])) = .offTape s →
        (∀ d, ¬Plain.ClosesScan (Plain.commandsOf text) d s.position) →
        ∃ k S e machine, (Session.mk (.start p t) (device, [])).after io.logged k = .ok S ∧
          S.machine.position = opcodeOf text s.position ∧
          ∀ budget, k < budget →
            Session.run io.logged (fun _ => false) budget ⟨.start p t, (device, [])⟩ =
              (.failed (.reported (.offTape e)), ⟨machine, s.device⟩)) ∧
      (∀ n s d,
        Plain.after io.logged (Plain.commandsOf text) n (.start t (device, [])) = .offTape s →
        Plain.ClosesScan (Plain.commandsOf text) d s.position →
        ∃ k S S', (Session.mk (.start p t) (device, [])).after io.logged k = .ok S ∧
          S.machine.position = opcodeOf text s.position ∧ S.device = s.device ∧
          S.Clamps io.logged d S' ∧
          ∀ more, Session.run io.logged (fun _ => false) (k + 1 + more) ⟨.start p t, (device, [])⟩ =
            Session.runFrom io.logged (fun _ => false) (k + 1) more S') := by
  obtain ⟨p, hp, hc⟩ := exists_compiled hbalanced hsize
  exact ⟨p, hp, fun expired budget e S h => exists_offTape_of_run hc hcursor h,
    fun n s h hscan => run_offTape hc hcursor h hscan,
    fun n s d h hscan => run_of_scan hc hcursor h hscan⟩

/-- A scan that stays on the first cell. The plain interpreter goes no further; the machine goes on,
and leaves the tape the other way. -/
theorem compile_faults_scan :
    ∃ p k S S' S₁ n s, compile "[<]>>." = .ok p ∧
      (Session.mk (.start p ⟨#[1, 1], 1⟩) (.start (.bytes []), [])).after Console.fed.logged k =
        .ok S ∧
      S.Clamps Console.fed.logged .left S' ∧
      Session.run Console.fed.logged (fun _ => false) 2
          ⟨.start p ⟨#[1, 1], 1⟩, (.start (.bytes []), [])⟩ =
        (.failed (.reported (.offTape ⟨2, 2⟩)), S₁) ∧
      Plain.after Console.fed.logged (Plain.commandsOf "[<]>>.") n
        (.start ⟨#[1, 1], 1⟩ (.start (.bytes []), [])) = .offTape s := by
  have hcommands : Plain.commandsOf "[<]>>." =
      [.beginLoop, .move .left, .endLoop, .move .right, .move .right, .write] := by decide +kernel
  have hcompile : compile "[<]>>." =
      .ok ⟨#[⟨0, .perform (.scan .left)⟩, ⟨2, .perform .write⟩]⟩ := by decide +kernel
  have hbalanced := (compile_eq_ok_iff "[<]>>.").mp ⟨_, hcompile⟩
  obtain ⟨p, hp, hruns, -, hscans⟩ := compile_faults Console.fed (.start (.bytes []))
    (t := ⟨#[1, 1], 1⟩) hbalanced (by decide) (by decide +kernel)
  obtain rfl := Except.ok.inj (hp.symm.trans hcompile)
  have hstop : Plain.after Console.fed.logged (Plain.commandsOf "[<]>>.") 5
      (.start ⟨#[1, 1], 1⟩ (.start (.bytes []), [])) =
        .offTape ⟨2, -1, ⟨#[1, 1], 0⟩, (.start (.bytes []), [])⟩ := by
    rw [hcommands]
    rfl
  have hcloses : Plain.ClosesScan (Plain.commandsOf "[<]>>.") .left 2 := by
    rw [hcommands]
    exact ⟨0, ⟨_, rfl⟩, rfl⟩
  have hrun : Session.run Console.fed.logged (fun _ => false) 2
      ⟨.start ⟨#[⟨0, .perform (.scan .left)⟩, ⟨2, .perform .write⟩]⟩ ⟨#[1, 1], 1⟩,
        (.start (.bytes []), [])⟩ =
      (.failed (.reported (.offTape ⟨2, 2⟩)), _) := rfl
  obtain ⟨k, S, S', hafter, -, -, hclamps, -⟩ := hscans 5 _ .left hstop hcloses
  obtain ⟨-, -, -, -, n, s, -, -, hplain, -⟩ := hruns _ _ _ _ hrun
  exact ⟨_, k, S, S', _, n, s, hp, hafter, hclamps, hrun, hplain⟩

end Program

end Brainfuck
