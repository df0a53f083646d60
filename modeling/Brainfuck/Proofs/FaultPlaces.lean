import Brainfuck.Proofs.Faults
import Brainfuck.Proofs.Widening

/-!
# Which cell is reported

When a run fails for a cell that is not on the tape, and no scan has missed a zero before, the plain
interpreter leaves the tape in the same opcode, and the error names the cell that it comes to first.
There is one exception: a copy to the left that misses two targets or more reports the furthest of
them, while the plain interpreter comes to the nearest first.

Main result: `Program.compile_fault_places`. What the error and the plain cursor are in each case is
told by `Opcode.Leaves`.
-/

namespace Brainfuck

section Runs

variable {σ : Type} {io : Console σ} {tokens : List Token} {p : Program} {start : Tape}
  {device₀ : σ} (hc : Compiled tokens p start.size) (hcursor : start.cursor < start.size)

include hc hcursor

/-- If no scan has missed a zero, both leave the tape in the same opcode. -/
theorem exists_leaves_of_run {expired : Nat → Bool} {budget : Nat} {e : OffTape} {S : Session σ}
    (h : Session.run io expired budget ⟨.start p start, device₀⟩ =
      (.failed (.reported (.offTape e)), S)) :
    ∃ k S₀, (Session.mk (.start p start) device₀).after io k = .ok S₀ ∧
      S₀.dispatch io = (.error (.reported (.offTape e)), S) ∧
      ((∀ j S₁, j < k → (Session.mk (.start p start) device₀).after io j = .ok S₁ →
          ¬S₁.MissesZero io) →
        ∃ n s o, Plain.after io (tokens.map (·.command)) n (.start start device₀) = .offTape s ∧
          s.device = S₀.device ∧ p.get? S₀.machine.position = some o ∧
          S₀.machine.position = opcodeIndex (stretches tokens) s.position ∧
          S₀.machine.tape.size = start.size ∧ o.Leaves S₀.machine.tape e s.cursor) := by
  obtain ⟨k, S₀, hafter, hfails, n, s, j, front, tape, device, hplain, hle, hmeeting, hstops⟩ :=
    exists_stop_of_run hc hcursor h
  refine ⟨k, S₀, hafter, hfails, fun hfinds => ?_⟩
  cases hstops with
  | offTape noScan index unchanged dispatch leaves =>
    obtain ⟨machine, hdispatch⟩ := dispatch j
    -- a dispatch that fails is the last
    obtain rfl : j = k := by
      rcases Nat.lt_or_eq_of_le hle with hlt | heq
      · rw [Session.after_of_error hmeeting.session hdispatch hlt] at hafter
        cases hafter
      · exact heq
    cases hafter.symm.trans hmeeting.session
    cases hfails.symm.trans hdispatch
    obtain ⟨o, hget, hleaves⟩ := leaves
    exact ⟨n, s, o, hplain, unchanged, hget, index.symm, hmeeting.fits.size_eq, hleaves⟩
  | clamped scan index unchanged opcode dispatch cells clamped fits =>
    have hlt : j < k := by
      refine Nat.lt_of_le_of_ne hle ?_
      rintro rfl
      cases hafter.symm.trans hmeeting.session
      cases hfails.symm.trans (dispatch j)
    obtain ⟨value, hvalue, hcell⟩ := clamped.nonzero
    exact absurd ⟨_, _, _, value, opcode, dispatch j, hcell, hvalue⟩
      (hfinds j _ hlt hmeeting.session)

end Runs

namespace Program

/-- **The error names the first cell that is not on the tape**, unless the opcode is a copy to the
left that misses two targets. -/
theorem compile_fault_places {σ : Type} (io : Console σ) (device : σ) {text : String} {t : Tape}
    (hbalanced : Balanced byteBracket? text.toUTF8.toList) (hcursor : t.cursor < t.size)
    (hsize : ((text.utf8ByteSize + t.size : Nat) : Int) ≤ greatestPosition) :
    ∃ p, compile text = .ok p ∧ ∀ expired budget e S,
      Session.run io.logged expired budget ⟨.start p t, (device, [])⟩ =
        (.failed (.reported (.offTape e)), S) →
      ∃ k S₀, (Session.mk (.start p t) (device, [])).after io.logged k = .ok S₀ ∧
        S₀.dispatch io.logged = (.error (.reported (.offTape e)), S) ∧
        ((∀ j S₁, j < k → (Session.mk (.start p t) (device, [])).after io.logged j = .ok S₁ →
            ¬S₁.MissesZero io.logged) →
          ∃ n s o,
            Plain.after io.logged (Plain.commandsOf text) n (.start t (device, [])) = .offTape s ∧
            s.device = S₀.device ∧ p.get? S₀.machine.position = some o ∧
            S₀.machine.position = opcodeOf text s.position ∧ e.size = t.size ∧
            o.Leaves S₀.machine.tape e s.cursor ∧
            (e.position = s.cursor ↔ ¬o.MissesTwoLeft S₀.machine.tape)) := by
  obtain ⟨p, hp, hc⟩ := exists_compiled hbalanced hsize
  refine ⟨p, hp, fun expired budget e S h => ?_⟩
  obtain ⟨k, S₀, hafter, hfails, hleaves⟩ := exists_leaves_of_run hc hcursor h
  refine ⟨k, S₀, hafter, hfails, fun hfinds => ?_⟩
  obtain ⟨n, s, o, hplain, hdevice, hget, hposition, hsize, hleaves⟩ := hleaves hfinds
  exact ⟨n, s, o, hplain, hdevice, hget, hposition, hleaves.size_eq.trans hsize, hleaves,
    hleaves.position_eq_iff⟩

/-- A copy to the right that misses two targets. Both come to the nearer one first. -/
theorem compile_fault_places_two_right :
    ∃ p S n s, compile "[->+>++<<]" = .ok p ∧
      Session.run Console.fed.logged (fun _ => false) 1
          ⟨.start p ⟨#[1], 0⟩, (.start (.bytes []), [])⟩ =
        (.failed (.reported (.offTape ⟨1, 1⟩)), S) ∧
      Plain.after Console.fed.logged (Plain.commandsOf "[->+>++<<]") n
        (.start ⟨#[1], 0⟩ (.start (.bytes []), [])) = .offTape s ∧ s.cursor = 1 := by
  have hcompile : compile "[->+>++<<]" =
      .ok ⟨#[⟨0, .perform (.copy [⟨1, 1⟩, ⟨2, 2⟩])⟩]⟩ := by decide +kernel
  have hbalanced := (compile_eq_ok_iff "[->+>++<<]").mp ⟨_, hcompile⟩
  obtain ⟨p, hp, hruns⟩ := compile_fault_places Console.fed (.start (.bytes []))
    (t := ⟨#[1], 0⟩) hbalanced (by decide) (by decide +kernel)
  obtain rfl := Except.ok.inj (hp.symm.trans hcompile)
  have hrun : Session.run Console.fed.logged (fun _ => false) 1
      ⟨.start ⟨#[⟨0, .perform (.copy [⟨1, 1⟩, ⟨2, 2⟩])⟩]⟩ ⟨#[1], 0⟩,
        (.start (.bytes []), [])⟩ =
      (.failed (.reported (.offTape ⟨1, 1⟩)), _) := rfl
  obtain ⟨k, S₀, hafter, -, hplaces⟩ := hruns _ _ _ _ hrun
  -- it is the first dispatch that fails, so there is no scan before it
  obtain rfl : k = 0 := by
    cases k with
    | zero => rfl
    | succ k => cases hafter
  cases hafter
  obtain ⟨n, s, o, hplain, -, hget, -, -, -, hiff⟩ :=
    hplaces fun j S₁ hj => absurd hj (Nat.not_lt_zero j)
  cases hget
  refine ⟨_, _, n, s, hp, hrun, hplain, (hiff.mpr ?_).symm⟩
  rintro ⟨-, far, near, -, ⟨hnear, -⟩, -, hneg⟩
  change near ∈ [⟨1, 1⟩, ⟨2, 2⟩] at hnear
  simp only [List.mem_cons, List.not_mem_nil, or_false] at hnear
  rcases hnear with rfl | rfl
  · exact absurd hneg (by decide)
  · exact absurd hneg (by decide)

/-- A copy to the left that misses two targets. The machine reports the further one, though there is
no scan in the program, and the plain interpreter comes to the nearer one first. -/
theorem compile_fault_places_two_left :
    ∃ p S s, compile "+[-<+<++>>]" = .ok p ∧
      (∀ index move d, p.get? index ≠ some ⟨move, .perform (.scan d)⟩) ∧
      Session.run Console.fed.logged (fun _ => false) 2
          ⟨.start p ⟨#[0], 0⟩, (.start (.bytes []), [])⟩ =
        (.failed (.reported (.offTape ⟨-2, 1⟩)), S) ∧
      Plain.after Console.fed.logged (Plain.commandsOf "+[-<+<++>>]") 5
        (.start ⟨#[0], 0⟩ (.start (.bytes []), [])) = .offTape s ∧ s.cursor = -1 := by
  have hcompile : compile "+[-<+<++>>]" =
      .ok ⟨#[⟨0, .perform (.add 1)⟩, ⟨0, .perform (.copy [⟨-2, 2⟩, ⟨-1, 1⟩])⟩]⟩ := by
    decide +kernel
  have hcommands : Plain.commandsOf "+[-<+<++>>]" =
      [.increment, .beginLoop, .decrement, .move .left, .increment, .move .left, .increment,
        .increment, .move .right, .move .right, .endLoop] := by decide +kernel
  refine ⟨_, _, _, hcompile, ?_, rfl, by rw [hcommands]; rfl, rfl⟩
  intro index move d h
  rcases index with - | - | index
  · cases h
  · cases h
  · cases h

end Program

end Brainfuck
