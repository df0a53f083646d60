import Brainfuck.Proofs.Preservation

/-!
# What a dispatch costs the plain interpreter

A compiled program never makes more dispatches than the plain interpreter executes commands
(`Program.compile_steps_le`). Each dispatch is charged to commands of its own: those that the plain
interpreter executes between two meetings. At least one of them uses a cell, namely the first
command of the opcode that is dispatched, while the moves in front of it are free. So what is
counted is `Plain.worked`, the executed commands other than moves.

A bracket that a jump passes over is not executed again, and an idiom on a zero cell is one command,
its `[`. Neither needs a case of its own here: the first command behind the moves is looked at, and
whatever follows it can only add to the count.
-/

namespace Brainfuck

namespace Plain

variable {σ : Type}

/-- How many of the next `n` commands use a cell, of those that are executed. -/
def worked (io : Console σ) (commands : List Command) : Nat → State σ → Nat
  | 0, _ => 0
  | n + 1, s =>
    match step io commands s with
    | .next s' => (if commands[s.position]?.any usesCell then 1 else 0) + worked io commands n s'
    | _ => 0

variable {io : Console σ} {commands : List Command} {s s' : State σ} {m n : Nat}

theorem worked_succ_of_next (h : step io commands s = .next s') (n : Nat) :
    worked io commands (n + 1) s =
      (if commands[s.position]?.any usesCell then 1 else 0) + worked io commands n s' := by
  rw [worked, h]

/-- No more commands use a cell than are executed. -/
theorem worked_le (io : Console σ) (commands : List Command) (n : Nat) (s : State σ) :
    worked io commands n s ≤ n := by
  induction n generalizing s with
  | zero => exact Nat.le_refl 0
  | succ n ih =>
    unfold worked
    split
    · next s' _ =>
      have := ih s'
      split <;> omega
    · exact Nat.zero_le _

/-- The commands of a run are those of its first part and those of the rest. -/
theorem worked_add (h : Reaches io commands m s s') (n : Nat) :
    worked io commands (m + n) s = worked io commands m s + worked io commands n s' := by
  induction m generalizing s with
  | zero =>
    cases h
    rw [Nat.zero_add, worked, Nat.zero_add]
  | succ m ih =>
    unfold Reaches at h
    rw [Nat.succ_add]
    cases hstep : step io commands s with
    | next s₁ =>
      rw [after_succ_of_next hstep] at h
      rw [worked_succ_of_next hstep, worked_succ_of_next hstep, ih h, Nat.add_assoc]
    | _ =>
      rw [after, hstep] at h
      cases h

/-- A run that starts with a command other than a move has executed one that uses a cell. -/
theorem one_le_worked {c : Command} (h : Reaches io commands (n + 1) s s')
    (hcommand : commands[s.position]? = some c) (huses : usesCell c = true) :
    1 ≤ worked io commands (n + 1) s := by
  unfold Reaches at h
  cases hstep : step io commands s with
  | next s₁ =>
    rw [worked_succ_of_next hstep, hcommand]
    simp [huses]
  | _ =>
    rw [after, hstep] at h
    cases h

end Plain

variable {σ : Type} {io : Console σ} {tokens : List Token} {p : Program}
  {front rest : List Stretch} {tape : Tape} {device : σ}

/-! ## One dispatch -/

/-- The next dispatch leads to another meeting, and the plain interpreter gets there with commands
of which at least one uses a cell. -/
structure Charged (io : Console σ) (tokens : List Token) (p : Program) (front front' : List Stretch)
    (tape tape' : Tape) (device device' : σ) : Prop where
  row : ∃ rest, stretches tokens = front' ++ rest
  plain : ∃ n, Plain.Reaches io (tokens.map (·.command)) n (.behind front tape device)
    (.behind front' tape' device') ∧
    1 ≤ Plain.worked io (tokens.map (·.command)) n (.behind front tape device)
  dispatch : ∀ steps, (Session.behind p front tape device steps).dispatch io =
    (.ok (), .behind p front' tape' device' (steps + 1))
  fits : tape'.Fits tape.size

/-- Moves in front of what is charged are free. -/
theorem Charged.of_reaches {front₁ front' : List Stretch} {tape' : Tape} {device' : σ} {m : Nat}
    (hreaches : Plain.Reaches io (tokens.map (·.command)) m (.behind front tape device)
      (.behind front₁ tape device))
    (hcount : opcodeCount (front₁.map (·.phrase)) = opcodeCount (front.map (·.phrase)))
    (h : Charged io tokens p front₁ front' tape tape' device device') :
    Charged io tokens p front front' tape tape' device device' := by
  obtain ⟨n, hplain, hworked⟩ := h.plain
  refine ⟨h.row, ⟨m + n, hreaches.trans hplain, ?_⟩, ?_, h.fits⟩
  · rw [Plain.worked_add hreaches]
    omega
  · intro steps
    rw [← Session.behind_eq p tape device hcount]
    exact h.dispatch steps

variable (io device) in
/-- The first command of an opcode uses a cell, so it can be charged. -/
theorem charged_of_makesOpcode {x : Stretch} (hc : Compiled tokens p tape.size)
    (hrow : stretches tokens = front ++ x :: rest) (hx : x.phrase.makesOpcode = true)
    (hfits : tape.Fits tape.size) :
    (∃ front' tape' device', Charged io tokens p front front' tape tape' device device') ∨
      ∃ n r, Plain.after io (tokens.map (·.command)) n (.behind front tape device) = r ∧
        Stops io tokens p front tape device r := by
  have hfollows : Follows io tokens p front tape device :=
    follows_of_makesOpcode hc hrow hx hfits
  cases hfollows with
  | stops plain h => exact Or.inr ⟨_, _, plain, h⟩
  | advanced row plain dispatch fits =>
    obtain ⟨c, more, hcommands, huses, -⟩ := x.spelled.exists_first hx
    have hcommands : x.commands = c :: more := hcommands
    have hsegment := segment_commands hrow
    rw [hcommands] at hsegment
    exact Or.inl ⟨_, _, _, ⟨_, row⟩, ⟨_, plain, Plain.one_le_worked plain hsegment.head huses⟩,
      dispatch, fits⟩

variable (io device) in
/-- From wherever the two meet, the next dispatch is charged, or the plain interpreter stops. -/
theorem charged_or_stops (hc : Compiled tokens p tape.size)
    (hrow : stretches tokens = front ++ rest) (hfits : tape.Fits tape.size) :
    (∃ front' tape' device', Charged io tokens p front front' tape tape' device device') ∨
      ∃ n r, Plain.after io (tokens.map (·.command)) n (.behind front tape device) = r ∧
        Stops io tokens p front tape device r := by
  obtain ⟨m, front₁, rest₁, hmoves, hcount, hrow₁, hopcode⟩ := exists_opcode io hrow tape device
  have hstop : ∀ n r, Plain.after io (tokens.map (·.command)) n (.behind front₁ tape device) = r →
      Stops io tokens p front₁ tape device r →
      ∃ n r, Plain.after io (tokens.map (·.command)) n (.behind front tape device) = r ∧
        Stops io tokens p front tape device r := by
    intro n r hplain hstops
    exact ⟨m + n, r, (hmoves.after_add n).trans hplain, hstops.of_count_eq hcount⟩
  cases rest₁ with
  | nil =>
    rw [List.append_nil] at hrow₁
    obtain ⟨r, hplain, hstops⟩ := stops_of_end io tape device hc hrow₁
    exact Or.inr (hstop 1 r hplain hstops)
  | cons x rest₂ =>
    rcases charged_of_makesOpcode io device hc hrow₁ (hopcode x rest₂ rfl)
      hfits with ⟨front', tape', device', hcharged⟩ | ⟨n, r, hplain, hstops⟩
    · exact Or.inl ⟨front', tape', device', hcharged.of_reaches hmoves hcount⟩
    · exact Or.inr (hstop n r hplain hstops)

/-! ## Whole runs -/

section Runs

variable {start : Tape} {device₀ : σ} (hc : Compiled tokens p start.size)
  (hcursor : start.cursor < start.size)

include hc hcursor

variable (io device₀) in
/-- After `k` dispatches the plain interpreter has executed `k` commands that use a cell, or it has
stopped behind fewer of them. -/
theorem exists_charged_meeting (k : Nat) :
    ∃ j front tape device, j ≤ k ∧ Meeting io tokens p start device₀ j front tape device ∧
      (∃ n, Plain.Reaches io (tokens.map (·.command)) n (.start start device₀)
          (.behind front tape device) ∧
        j ≤ Plain.worked io (tokens.map (·.command)) n (.start start device₀)) ∧
      (j = k ∨ ∃ n r, Plain.after io (tokens.map (·.command)) n (.behind front tape device) = r ∧
        Stops io tokens p front tape device r) := by
  induction k with
  | zero =>
    obtain ⟨j, front, tape, device, hle, hmeeting, -⟩ := exists_meeting io device₀ hc hcursor 0
    obtain ⟨n, -, hplain⟩ := hmeeting.plain
    exact ⟨j, front, tape, device, hle, hmeeting, ⟨n, hplain, by omega⟩, Or.inl (by omega)⟩
  | succ k ih =>
    obtain ⟨j, front, tape, device, hle, hmeeting, ⟨n, hplain, hworked⟩, hj | hstops⟩ := ih
    · subst hj
      have hfits := hmeeting.fits
      obtain ⟨rest, hrow⟩ := hmeeting.row
      rcases charged_or_stops io device (hfits.size_eq ▸ hc) hrow ⟨rfl, hfits.cursor_lt⟩ with
        ⟨front', tape', device', hcharged⟩ | hstops
      · obtain ⟨m, hnext, hone⟩ := hcharged.plain
        have hsum := Plain.worked_add hplain m
        have hall := Plain.worked_le io (tokens.map (·.command)) (n + m) (.start start device₀)
        exact ⟨j + 1, front', tape', device', Nat.le_refl _,
          ⟨hcharged.row, ⟨n + m, by omega, hplain.trans hnext⟩,
            Session.after_step hmeeting.session (hcharged.dispatch j),
            hfits.size_eq ▸ hcharged.fits⟩,
          ⟨n + m, hplain.trans hnext, by omega⟩, Or.inl rfl⟩
      · exact ⟨j, front, tape, device, Nat.le_succ j, hmeeting, ⟨n, hplain, hworked⟩, Or.inr hstops⟩
    · exact ⟨j, front, tape, device, Nat.le_succ_of_le hle, hmeeting, ⟨n, hplain, hworked⟩,
        Or.inr hstops⟩

/-- If the plain interpreter comes to the end of the text, the machine comes to the end of the
program, and has made no more dispatches than commands that use a cell were executed. -/
theorem run_completed_within {n : Nat} {s : Plain.State σ}
    (h : Plain.Reaches io (tokens.map (·.command)) n (.start start device₀) s)
    (hend : Plain.step io (tokens.map (·.command)) s = .finished s) :
    ∃ k, k ≤ Plain.worked io (tokens.map (·.command)) n (.start start device₀) ∧
      ∀ budget, k ≤ budget → Session.run io (fun _ => false) budget ⟨.start p start, device₀⟩ =
        (.completed, ⟨⟨p, s.tape, p.size, k⟩, s.device⟩) := by
  have hstopped : (Plain.Result.finished s).Stopped := nofun
  have hfinished : Plain.after io (tokens.map (·.command)) (n + 1) (.start start device₀) =
      .finished s := (h.after_add 1).trans (Plain.after_succ_of_stopped hend hstopped 0)
  obtain ⟨j, front, tape, device, -, hmeeting, ⟨m, hplain, hworked⟩, hlast⟩ :=
    exists_charged_meeting io device₀ hc hcursor (n + 1)
  have hm : m < n + 1 := hplain.lt_of_stopped hfinished hstopped
  have hall := Plain.worked_le io (tokens.map (·.command)) m (.start start device₀)
  rcases hlast with hj | ⟨m', r, hr, hstops⟩
  · omega
  · obtain rfl := Plain.stopped_unique ((hplain.after_add m').trans hr) hfinished hstops.stopped
      hstopped
    obtain ⟨more, rfl⟩ := Nat.exists_eq_add_of_le (Nat.le_of_lt_succ hm)
    refine ⟨j, Nat.le_trans hworked ?_, ?_⟩
    · rw [Plain.worked_add hplain]
      exact Nat.le_add_right _ _
    · cases hstops with
      | finished unchanged last =>
        obtain ⟨htape, hdevice⟩ := unchanged
        have hsession := hmeeting.session
        unfold Session.behind at hsession
        rw [last, ← htape, ← hdevice] at hsession
        intro budget hbudget
        exact Session.run_of_finished hsession (decide_eq_true (Nat.le_refl p.size)) hbudget

end Runs

namespace Program

/-- **Compiling never costs dispatches.** If the text ends after `n` commands, the program ends
after at most `n` dispatches; and of the commands only those count that use a cell, so that moves
are free. -/
theorem compile_steps_le {σ : Type} (io : Console σ) (device : σ) {text : String} {t : Tape}
    (hbalanced : Balanced byteBracket? text.toUTF8.toList) (hcursor : t.cursor < t.size)
    (hsize : ((text.utf8ByteSize + t.size : Nat) : Int) ≤ greatestPosition) :
    ∃ p, compile text = .ok p ∧
      ∀ n s, Plain.Reaches io (Plain.commandsOf text) n (.start t device) s →
        Plain.step io (Plain.commandsOf text) s = .finished s →
        ∃ steps, steps ≤ n ∧ steps ≤ Plain.worked io (Plain.commandsOf text) n (.start t device) ∧
          ∀ budget, steps ≤ budget →
            Session.run io (fun _ => false) budget ⟨.start p t, device⟩ =
              (.completed, ⟨⟨p, s.tape, p.size, steps⟩, s.device⟩) := by
  obtain ⟨p, hp, hc⟩ := exists_compiled hbalanced hsize
  refine ⟨p, hp, ?_⟩
  intro n s hreaches hend
  obtain ⟨k, hk, hrun⟩ := run_completed_within hc hcursor hreaches hend
  exact ⟨k, Nat.le_trans hk (Plain.worked_le ..), hk, hrun⟩

/-- Of 24 commands 17 use a cell, and the program makes no more dispatches than those. -/
theorem compile_steps_le_of_copy :
    ∃ p steps, compile "+++[->++<]>." = .ok p ∧ steps ≤ 17 ∧ ∀ budget, steps ≤ budget →
      Session.run Console.fed (fun _ => false) budget ⟨.start p ⟨#[0, 0], 0⟩, .start (.bytes [])⟩ =
        (.completed, ⟨⟨p, ⟨#[0, 6], 1⟩, p.size, steps⟩, ⟨.bytes [], #[6]⟩⟩) := by
  have hcommands : Plain.commandsOf "+++[->++<]>." =
      [.increment, .increment, .increment, .beginLoop, .decrement, .move .right, .increment,
        .increment, .move .left, .endLoop, .move .right, .write] := by decide +kernel
  have hbalanced := (compile_eq_ok_iff "+++[->++<]>.").mp ⟨⟨#[⟨0, .perform (.add 3)⟩,
    ⟨0, .perform (.copy [⟨1, 2⟩])⟩, ⟨1, .perform .write⟩]⟩, by decide +kernel⟩
  obtain ⟨p, hp, hruns⟩ := compile_steps_le Console.fed (.start (.bytes [])) (t := ⟨#[0, 0], 0⟩)
    hbalanced (by decide) (by decide +kernel)
  obtain ⟨steps, -, hworked, hrun⟩ := hruns 24 ⟨12, 1, ⟨#[0, 6], 1⟩, ⟨.bytes [], #[6]⟩⟩
    (by rw [hcommands]; rfl) (by rw [hcommands]; rfl)
  rw [hcommands] at hworked
  exact ⟨p, steps, hp, hworked, hrun⟩

end Program

end Brainfuck
