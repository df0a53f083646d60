import Brainfuck.Proofs.Simulation

/-!
# Whole runs

From the start of a compiled text on, the machine is followed dispatch by dispatch
(`exists_meeting`): after `k` dispatches the two meet again, or one of the first `k` dispatches was
the last that could be followed, and there the plain interpreter stops (`Stops`).

A run of the plain interpreter stops in one way only, so how it ends tells which of the ways to stop
it was (`exists_stop`). If it does not end, no dispatch fails and none is the last
(`run_suspended`).
-/

namespace Brainfuck

variable {σ : Type} {io : Console σ} {tokens : List Token} {p : Program}
  {front rest : List Stretch} {tape : Tape} {device : σ}

/-! ## Moves between opcodes -/

theorem Plain.State.behind_move {x : Stretch} {d : Direction} (hx : x.phrase = .move d)
    (tape : Tape) (device : σ) :
    Plain.State.behind (front ++ [x]) tape device =
      (Plain.State.behind front tape device).move d := by
  unfold Plain.State.behind
  rw [rowCommands_append, List.length_append, rowCommands_cons, rowCommands_nil, List.append_nil,
    Stretch.commands_of_move hx, List.map_append, List.map_singleton, carried_concat, hx,
    Phrase.carry, ← Int.add_assoc]
  rfl

variable (io) in
/-- The moves in front of the next opcode are passed over without a dispatch. -/
theorem exists_opcode (hrow : stretches tokens = front ++ rest) (tape : Tape) (device : σ) :
    ∃ n front' rest', Plain.Reaches io (tokens.map (·.command)) n (.behind front tape device)
        (.behind front' tape device) ∧
      opcodeCount (front'.map (·.phrase)) = opcodeCount (front.map (·.phrase)) ∧
      stretches tokens = front' ++ rest' ∧
      ∀ x rest'', rest' = x :: rest'' → x.phrase.makesOpcode = true := by
  induction rest generalizing front with
  | nil => exact ⟨0, front, [], .refl _, rfl, hrow, nofun⟩
  | cons x rest ih =>
    cases hmakes : x.phrase.makesOpcode with
    | true =>
      refine ⟨0, front, x :: rest, .refl _, rfl, hrow, ?_⟩
      intro x' rest'' h
      cases h
      exact hmakes
    | false =>
      -- a stretch that makes no opcode is a move
      obtain ⟨d, hphrase⟩ : ∃ d, x.phrase = .move d := by
        cases hphrase : x.phrase with
        | move d => exact ⟨d, rfl⟩
        | _ =>
          rw [hphrase] at hmakes
          cases hmakes
      have hrow' : stretches tokens = (front ++ [x]) ++ rest := by
        rw [hrow, List.append_assoc, List.singleton_append]
      have hsegment := segment_commands hrow
      rw [Stretch.commands_of_move hphrase] at hsegment
      have hmove : Plain.step io (tokens.map (·.command)) (.behind front tape device) = _ :=
        Plain.step_move io hsegment.head
      rw [← Plain.State.behind_move hphrase] at hmove
      obtain ⟨n, front', rest', hreaches, hcount, hrest⟩ := ih hrow'
      refine ⟨n + 1, front', rest', .head hmove hreaches, ?_, hrest⟩
      rw [hcount, List.map_append, List.map_singleton, opcodeCount_append, hphrase]
      rfl

variable (p tape device) in
theorem Session.behind_eq {front' : List Stretch}
    (h : opcodeCount (front'.map (·.phrase)) = opcodeCount (front.map (·.phrase))) (steps : Nat) :
    Session.behind p front' tape device steps = Session.behind p front tape device steps := by
  unfold Session.behind
  rw [h]

/-- Where the plain interpreter stops behind some moves, it stops in front of them. -/
theorem Stops.of_count_eq {front' : List Stretch} {r : Plain.Result σ}
    (hcount : opcodeCount (front'.map (·.phrase)) = opcodeCount (front.map (·.phrase)))
    (h : Stops io tokens p front' tape device r) : Stops io tokens p front tape device r := by
  have hsession := Session.behind_eq p tape device hcount
  cases h with
  | finished unchanged last => exact .finished unchanged (hcount ▸ last)
  | failed dispatch => exact .failed fun steps => hsession steps ▸ dispatch steps
  | offTape noScan index unchanged dispatch leaves =>
    exact .offTape noScan (hcount ▸ index) unchanged (fun steps => hsession steps ▸ dispatch steps)
      (hcount ▸ leaves)
  | clamped scan index unchanged opcode dispatch cells clamped fits =>
    exact .clamped scan (hcount ▸ index) unchanged (hcount ▸ opcode)
      (fun steps => hsession steps ▸ hcount ▸ dispatch steps) cells clamped fits

/-- What is followed behind some moves is followed in front of them. -/
theorem Follows.of_reaches {front' : List Stretch} {m : Nat}
    (hreaches : Plain.Reaches io (tokens.map (·.command)) m (.behind front tape device)
      (.behind front' tape device))
    (hcount : opcodeCount (front'.map (·.phrase)) = opcodeCount (front.map (·.phrase)))
    (h : Follows io tokens p front' tape device) : Follows io tokens p front tape device := by
  have hsession := Session.behind_eq p tape device hcount
  cases h with
  | advanced row plain dispatch fits =>
    have hplain := hreaches.trans plain
    rw [← Nat.add_assoc] at hplain
    exact .advanced row hplain (fun steps => hsession steps ▸ dispatch steps) fits
  | stops plain h => exact .stops ((hreaches.after_add _).trans plain) (h.of_count_eq hcount)

variable (io tape device) in
/-- Behind the last stretch both have come to their end. -/
theorem stops_of_end (hc : Compiled tokens p tape.size) (hrow : stretches tokens = front) :
    ∃ r, Plain.after io (tokens.map (·.command)) 1 (.behind front tape device) = r ∧
      Stops io tokens p front tape device r := by
  have hcommands : tokens.map (·.command) = rowCommands front := by
    rw [← rowCommands_stretches, hrow]
  have hlength := Nat.le_of_eq (congrArg List.length hcommands)
  have hend : Plain.step io (tokens.map (·.command)) (.behind front tape device) = _ :=
    Plain.step_finished io hlength
  refine ⟨_, Plain.after_succ_of_stopped hend nofun 0, .finished ⟨rfl, rfl⟩ ?_⟩
  rw [Program.size_of_ofPhrases hc.ofPhrases, hrow]

variable (io device) in
/-- From wherever the two meet, the next dispatch is followed, if there is one. -/
theorem follows (hc : Compiled tokens p tape.size) (hrow : stretches tokens = front ++ rest)
    (hfits : tape.Fits tape.size) : Follows io tokens p front tape device := by
  obtain ⟨n, front', rest', hreaches, hcount, hrow', hopcode⟩ :=
    exists_opcode io hrow tape device
  refine Follows.of_reaches hreaches hcount ?_
  cases rest' with
  | nil =>
    rw [List.append_nil] at hrow'
    obtain ⟨r, hplain, hstops⟩ := stops_of_end io tape device hc hrow'
    exact .stops hplain hstops
  | cons x rest'' => exact follows_of_makesOpcode hc hrow' (hopcode x rest'' rfl) hfits

/-! ## Meetings -/

/-- After some dispatches the two meet behind `front`. The plain interpreter has executed at least
as many commands. -/
structure Meeting (io : Console σ) (tokens : List Token) (p : Program) (start : Tape) (device₀ : σ)
    (dispatches : Nat) (front : List Stretch) (tape : Tape) (device : σ) : Prop where
  row : ∃ rest, stretches tokens = front ++ rest
  plain : ∃ n, dispatches ≤ n ∧ Plain.Reaches io (tokens.map (·.command)) n (.start start device₀)
    (.behind front tape device)
  session : (Session.mk (.start p start) device₀).after io dispatches =
    .ok (.behind p front tape device dispatches)
  fits : tape.Fits start.size

/-- How the plain interpreter stops behind a meeting is how it stops. -/
theorem Meeting.after_add {start : Tape} {device₀ : σ} {j m : Nat} {r : Plain.Result σ}
    (hmeeting : Meeting io tokens p start device₀ j front tape device)
    (h : Plain.after io (tokens.map (·.command)) m (.behind front tape device) = r) :
    ∃ n, Plain.after io (tokens.map (·.command)) n (.start start device₀) = r := by
  obtain ⟨k, -, hplain⟩ := hmeeting.plain
  exact ⟨k + m, (hplain.after_add m).trans h⟩

section Runs

variable {start : Tape} {device₀ : σ} (hc : Compiled tokens p start.size)
  (hcursor : start.cursor < start.size)

include hc hcursor

variable (io device₀) in
/-- **The machine is followed dispatch by dispatch**, until the plain interpreter stops. -/
theorem exists_meeting (k : Nat) :
    ∃ j front tape device, j ≤ k ∧ Meeting io tokens p start device₀ j front tape device ∧
      (j = k ∨ ∃ n r, Plain.after io (tokens.map (·.command)) n (.start start device₀) = r ∧
        Stops io tokens p front tape device r) := by
  induction k with
  | zero =>
    have hstart : Plain.State.start start device₀ = .behind [] start device₀ := by
      unfold Plain.State.start Plain.State.behind
      rw [show carried (List.map (·.phrase) ([] : List Stretch)) = 0 from rfl, Int.add_zero]
      rfl
    exact ⟨0, [], start, device₀, Nat.le_refl 0,
      ⟨⟨_, rfl⟩, ⟨0, Nat.le_refl 0, hstart ▸ .refl _⟩, rfl, ⟨rfl, hcursor⟩⟩, Or.inl rfl⟩
  | succ k ih =>
    obtain ⟨j, front, tape, device, hle, hmeeting, rfl | hstops⟩ := ih
    · have hfits := hmeeting.fits
      obtain ⟨rest, hrow⟩ := hmeeting.row
      obtain ⟨n, hn, hplain⟩ := hmeeting.plain
      have hfollows := follows io device (hfits.size_eq ▸ hc) hrow ⟨rfl, hfits.cursor_lt⟩
      cases hfollows with
      | advanced row plain dispatch fits =>
        exact ⟨j + 1, _, _, _, Nat.le_refl _, ⟨⟨_, row⟩, ⟨_, by omega, hplain.trans plain⟩,
          Session.after_step hmeeting.session (dispatch j), hfits.size_eq ▸ fits⟩, Or.inl rfl⟩
      | stops plain h =>
        obtain ⟨m, hm⟩ := hmeeting.after_add plain
        exact ⟨j, front, tape, device, Nat.le_succ j, hmeeting, Or.inr ⟨m, _, hm, h⟩⟩
    · exact ⟨j, front, tape, device, Nat.le_succ_of_le hle, hmeeting, Or.inr hstops⟩

/-- A run of the plain interpreter that stops does so behind a meeting. -/
theorem exists_stop {n : Nat} {r : Plain.Result σ}
    (h : Plain.after io (tokens.map (·.command)) n (.start start device₀) = r) (hr : r.Stopped) :
    ∃ j front tape device, Meeting io tokens p start device₀ j front tape device ∧
      Stops io tokens p front tape device r := by
  obtain ⟨j, front, tape, device, -, hmeeting, rfl | ⟨m, r', h', hstops⟩⟩ :=
    exists_meeting io device₀ hc hcursor (n + 1)
  · -- so many dispatches take the plain interpreter at least as many commands
    obtain ⟨m, hm, hplain⟩ := hmeeting.plain
    have := hplain.lt_of_stopped h hr
    omega
  · obtain rfl := Plain.stopped_unique h' h hstops.stopped hr
    exact ⟨j, front, tape, device, hmeeting, hstops⟩

/-! ## How runs end -/

section Ends

variable {n : Nat} {s : Plain.State σ} {e : DeviceError}

/-- If the plain interpreter comes to the end of the text, the machine comes to the end of the
program, with the same cells and the cursor where the last one was used. -/
theorem run_completed
    (h : Plain.after io (tokens.map (·.command)) n (.start start device₀) = .finished s) :
    ∃ k, ∀ budget, k ≤ budget →
      Session.run io (fun _ => false) budget ⟨.start p start, device₀⟩ =
        (.completed, ⟨⟨p, s.tape, p.size, k⟩, s.device⟩) := by
  obtain ⟨j, front, tape, device, hmeeting, hstops⟩ := exists_stop hc hcursor h nofun
  cases hstops with
  | finished unchanged last =>
    obtain ⟨rfl, rfl⟩ := unchanged
    have hsession := hmeeting.session
    unfold Session.behind at hsession
    rw [last] at hsession
    refine ⟨j, fun budget hbudget => Session.run_of_finished hsession ?_ hbudget⟩
    exact decide_eq_true (Nat.le_refl p.size)

/-- If reading or writing fails for the plain interpreter, it fails for the machine. -/
theorem run_failed
    (h : Plain.after io (tokens.map (·.command)) n (.start start device₀) = .failed e s) :
    ∃ k machine, ∀ budget, k ≤ budget →
      Session.run io (fun _ => false) budget ⟨.start p start, device₀⟩ =
        (.failed (.reported (.io e)), ⟨machine, s.device⟩) := by
  obtain ⟨j, front, tape, device, hmeeting, hstops⟩ := exists_stop hc hcursor h nofun
  cases hstops with
  | failed dispatch =>
    obtain ⟨machine, hdispatch⟩ := dispatch j
    exact ⟨j + 1, machine, fun budget hbudget =>
      Session.run_of_error hmeeting.session hdispatch hbudget⟩

end Ends

/-- If the plain interpreter runs forever, the machine uses up any budget, and has made as many
dispatches as that, which took the plain interpreter at least as many commands. -/
theorem run_suspended
    (h : ∀ n, ∃ s, Plain.after io (tokens.map (·.command)) n (.start start device₀) = .next s)
    (budget : Nat) :
    ∃ S n s, Session.run io (fun _ => false) budget ⟨.start p start, device₀⟩ = (.suspended, S) ∧
      budget ≤ n ∧ Plain.after io (tokens.map (·.command)) n (.start start device₀) = .next s ∧
      S.device = s.device := by
  have hall : ∀ k, ∃ front tape device, Meeting io tokens p start device₀ k front tape device := by
    intro k
    obtain ⟨j, front, tape, device, -, hmeeting, rfl | hstops⟩ :=
      exists_meeting io device₀ hc hcursor k
    · exact ⟨front, tape, device, hmeeting⟩
    · obtain ⟨n, r, hstop, hstops⟩ := hstops
      obtain ⟨s, hs⟩ := h n
      exact absurd (hstop.symm.trans hs) (hstops.stopped s)
  obtain ⟨front, tape, device, hmeeting⟩ := hall budget
  obtain ⟨n, hn, hplain⟩ := hmeeting.plain
  refine ⟨_, n, _, Session.run_of_not_finished hmeeting.session ?_, hn, hplain.after_add 0, rfl⟩
  cases hfinished : (Session.behind p front tape device budget).machine.finished with
  | false => rfl
  | true =>
    -- a dispatch at the end would not count
    obtain ⟨front', tape', device', hnext⟩ := hall (budget + 1)
    have hsame := Session.after_step hmeeting.session (Session.dispatch_of_finished hfinished)
    rw [hnext.session] at hsame
    have hsteps := congrArg (fun S => S.machine.steps) (Except.ok.inj hsame)
    exact absurd hsteps (Nat.succ_ne_self budget)

end Runs

end Brainfuck
