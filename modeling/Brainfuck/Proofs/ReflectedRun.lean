import Brainfuck.Proofs.Preservation
import Brainfuck.Proofs.Reflection
import Brainfuck.Proofs.Safety
import Brainfuck.Proofs.Views

/-!
# Runs seen from the other side of the tape

A reflected program does on a reflected tape what the program does on the tape. Moves lead to the
reflected cells (`Tape.moveBy_reflect`), and so do scans (`Tape.scan_reflect`). The targets of a
copy come in the other order, which makes no difference to what is added to each cell
(`Tape.spread_reflect`), but may make another target the one at which it is refused. So all that can
be told apart are the position that is reported and what a copy that is refused has done before.

Main result: `Program.compile_reflect`.
-/

namespace Brainfuck

namespace Tape

/-- The tape seen from the other side. -/
def reflect : Tape → Tape
  | ⟨cells, cursor⟩ => ⟨cells.reverse, cells.size - 1 - cursor⟩

variable {t t' : Tape}

theorem size_reflect (t : Tape) : t.reflect.size = t.size := Array.size_reverse

theorem cursor_reflect (t : Tape) : t.reflect.cursor = t.size - 1 - t.cursor := rfl

theorem cursor_reflect_lt (h : t.cursor < t.size) : t.reflect.cursor < t.reflect.size := by
  rw [size_reflect, cursor_reflect]
  omega

/-- What matters is that each cell is found from the other side. -/
theorem eq_reverse {cells cells' : Array UInt8} (hsize : cells'.size = cells.size)
    (h : ∀ i, i < cells.size → cells'[cells.size - 1 - i]? = cells[i]?) :
    cells' = cells.reverse := by
  apply Array.ext_getElem?
  intro i
  by_cases hi : i < cells.size
  · have hback : cells.size - 1 - (cells.size - 1 - i) = i := by omega
    rw [Array.getElem?_reverse hi, ← h _ (by omega), hback]
  · rw [Array.getElem?_eq_none (by omega),
      Array.getElem?_eq_none (by rw [Array.size_reverse]; omega)]

theorem getElem?_reverse_sub {cells : Array UInt8} {index : Nat} (h : index < cells.size) :
    cells.reverse[cells.size - 1 - index]? = cells[index]? := by
  rw [Array.getElem?_reverse (by omega)]
  congr 1
  omega

/-- There is a cell exactly if there is one from the other side. -/
theorem holds_reflect (h : t.cursor < t.size) (offset : Int) :
    t.reflect.Holds (t.reflect.cursor + -offset) ↔ t.Holds (t.cursor + offset) := by
  unfold Holds
  rw [size_reflect, cursor_reflect]
  omega

theorem reflect_faithful : Faithful reflect where
  cell := fun _ h => getElem?_reverse_sub h
  store := by
    rintro ⟨cells, cursor⟩ value h
    have hcursor : cursor < cells.size := h
    have hsize : (cells.setIfInBounds cursor value).size = cells.size := Array.size_setIfInBounds
    have hcells : cells.reverse.setIfInBounds (cells.size - 1 - cursor) value =
        (cells.setIfInBounds cursor value).reverse := by
      refine eq_reverse ?_ ?_
      · rw [Array.size_setIfInBounds, Array.size_reverse, hsize]
      · intro i hi
        rw [hsize] at hi ⊢
        rw [Array.getElem?_setIfInBounds, Array.getElem?_setIfInBounds, Array.size_reverse,
          getElem?_reverse_sub hi]
        by_cases heq : cursor = i
        · subst heq
          rw [if_pos rfl, if_pos rfl, if_pos (by omega), if_pos hi]
        · rw [if_neg (by omega), if_neg heq]
    show Tape.mk _ _ = Tape.mk _ _
    rw [hcells, hsize]

/-! ## Moves -/

section Moves

variable {offset : Int} (hcursor : t.cursor < t.size) (hword : t.InWord offset)
  (hword' : t.reflect.InWord (-offset))

include hcursor hword hword'

/-- A move that leads to a cell leads to the reflected one. -/
theorem moveBy_reflect (h : t.moveBy offset = .ok t') :
    t.reflect.moveBy (-offset) = .ok t'.reflect := by
  by_cases hholds : t.Holds (t.cursor + offset)
  · rw [moveBy_of_holds hword hholds] at h
    cases h
    rw [moveBy_of_holds hword' ((holds_reflect hcursor offset).mpr hholds)]
    refine congrArg (fun cursor => Except.ok (Tape.mk t.cells.reverse cursor)) ?_
    obtain ⟨hnonneg, hlt⟩ := hholds
    show _ = t.size - 1 - (t.cursor + offset).toNat
    rw [cursor_reflect]
    omega
  · rw [moveBy_of_not_holds hword hholds] at h
    cases h

/-- A move that is refused is refused from the other side. -/
theorem moveBy_reflect_error {failure : Failure OffTape} (h : t.moveBy offset = .error failure) :
    ∃ e e', failure = .reported e ∧ t.reflect.moveBy (-offset) = .error (.reported e') := by
  by_cases hholds : t.Holds (t.cursor + offset)
  · rw [moveBy_of_holds hword hholds] at h
    cases h
  · rw [moveBy_of_not_holds hword hholds] at h
    cases h
    exact ⟨_, _, rfl,
      moveBy_of_not_holds hword' fun hholds' => hholds ((holds_reflect hcursor offset).mp hholds')⟩

end Moves

/-! ## Scans -/

theorem scan_reflect (d : Direction) (hcursor : t.cursor < t.size) :
    t.reflect.scan d.opposite = (t.scan d).reflect := by
  have hcell {t : Tape} {value : UInt8} (h : t.cells[t.cursor]? = some value) :
      t.reflect.cells[t.reflect.cursor]? = some value :=
    (reflect_faithful.cell t (Array.getElem?_eq_some_iff.mp h).1).trans h
  have hholds {t : Tape} (h : t.cursor < t.size) :
      t.reflect.Holds (t.reflect.cursor + d.opposite.unit) ↔ t.Holds (t.cursor + d.unit) := by
    rw [Direction.unit_opposite]
    exact holds_reflect h d.unit
  refine scan_induction (d := d) (motive := fun t =>
    t.reflect.scan d.opposite = (t.scan d).reflect) ?zero ?edge ?next hcursor
  case zero =>
    intro t hzero
    rw [scan_of_zero hzero, scan_of_zero (hcell hzero)]
  case edge =>
    intro t value hvalue _ hedge
    have hlt : t.cursor < t.size := (Array.getElem?_eq_some_iff.mp hvalue).1
    rw [scan_of_edge hlt hedge,
      scan_of_edge (cursor_reflect_lt hlt) fun hnext => hedge ((hholds hlt).mp hnext)]
  case next =>
    intro t value hvalue hne hnext ih
    have hlt : t.cursor < t.size := (Array.getElem?_eq_some_iff.mp hvalue).1
    have hmoved : ({ t.reflect with
        cursor := (t.reflect.cursor + d.opposite.unit).toNat } : Tape) =
          reflect { t with cursor := (t.cursor + d.unit).toNat } := by
      obtain ⟨hnonneg, hlt'⟩ := hnext
      refine congrArg (Tape.mk _) ?_
      show _ = t.size - 1 - (t.cursor + d.unit).toNat
      rw [cursor_reflect, Direction.unit_opposite]
      omega
    rw [scan_of_next hvalue hne hnext, scan_of_next (hcell hvalue) hne ((hholds hlt).mpr hnext),
      hmoved]
    exact ih

/-! ## Copies -/

theorem tally_map_reflect (targets : List Target) (offset : Int) :
    tally (targets.map Target.reflect) offset = tally targets (-offset) := by
  induction targets with
  | nil => rfl
  | cons target targets ih =>
    rw [List.map_cons, tally_cons, tally_cons, ih]
    congr 1
    have hiff : target.reflect.offset = offset ↔ target.offset = -offset := by
      show -target.offset = offset ↔ _
      omega
    simp only [hiff]
    rfl

/-- Each cell gains as much from the other side, whatever the order of the targets. -/
theorem gainOf_reflect {size base i : Nat} (hbase : base < size) (hi : i < size)
    (targets : List Target) :
    gainOf (size - 1 - base) (targets.map Target.reflect).reverse (size - 1 - i) =
      gainOf base targets i := by
  unfold gainOf
  rw [tally_reverse, tally_map_reflect]
  congr 2
  omega

theorem raise_reverse {gain gain' : Nat → UInt8} {cells : Array UInt8}
    (h : ∀ i, i < cells.size → gain' (cells.size - 1 - i) = gain i) :
    raise gain' cells.reverse = (raise gain cells).reverse := by
  refine eq_reverse ?_ ?_
  · rw [size_raise, size_raise, Array.size_reverse]
  · intro i hi
    rw [size_raise] at hi ⊢
    rw [getElem?_raise, getElem?_raise, getElem?_reverse_sub hi, h i hi]

section Copies

variable {targets : List Target} (hcursor : t.cursor < t.size)
  (hword : ∀ target ∈ targets, t.InWord target.offset)
  (hword' : ∀ target ∈ targets, t.reflect.InWord (-target.offset))

theorem mem_reflect {target : Target} (h : target ∈ (targets.map Target.reflect).reverse) :
    ∃ original ∈ targets, target.offset = -original.offset := by
  obtain ⟨original, hmem, rfl⟩ := List.mem_map.mp (List.mem_reverse.mp h)
  exact ⟨original, hmem, rfl⟩

include hword' in
theorem inWord_reflect :
    ∀ target ∈ (targets.map Target.reflect).reverse, t.reflect.InWord target.offset := by
  intro target htarget
  obtain ⟨original, hmem, hoffset⟩ := mem_reflect htarget
  rw [hoffset]
  exact hword' original hmem

include hcursor hword hword'

/-- A copy that reaches all its targets reaches them from the other side, and adds the same. -/
theorem spread_reflect {value : UInt8} (h : spread value targets t = (.ok (), t')) :
    spread value (targets.map Target.reflect).reverse t.reflect = (.ok (), t'.reflect) := by
  by_cases hholds : ∀ target ∈ targets, t.Holds (t.cursor + target.offset)
  · have hholds' : ∀ target ∈ (targets.map Target.reflect).reverse,
        t.reflect.Holds (t.reflect.cursor + target.offset) := by
      intro target htarget
      obtain ⟨original, hmem, hoffset⟩ := mem_reflect htarget
      rw [hoffset]
      exact (holds_reflect hcursor _).mpr (hholds original hmem)
    rw [spread_of_holds hword hholds] at h
    cases h
    refine (spread_of_holds (inWord_reflect hword') hholds').trans ?_
    refine congrArg (fun t => (Except.ok (), t)) ?_
    have hgain : raise (fun i => value *
          gainOf (t.cells.size - 1 - t.cursor) (targets.map Target.reflect).reverse i)
          t.cells.reverse =
        (raise (fun i => value * gainOf t.cursor targets i) t.cells).reverse :=
      raise_reverse fun i hi => congrArg (value * ·) (gainOf_reflect hcursor hi targets)
    show Tape.mk _ _ = Tape.mk _ _
    rw [hgain, size_raise]
  · obtain ⟨target, htarget⟩ := Classical.not_forall.mp hholds
    obtain ⟨front, missing, behind, -, -, -, hspread⟩ := spread_of_not_holds value hword
      ⟨target, Classical.not_imp.mp htarget⟩
    rw [hspread] at h
    cases h

/-- A copy that is refused is refused from the other side, perhaps at another target. -/
theorem spread_reflect_error {value : UInt8} {failure : Failure OffTape}
    (h : spread value targets t = (.error failure, t')) :
    ∃ e e' t'', failure = .reported e ∧
      spread value (targets.map Target.reflect).reverse t.reflect =
        (.error (.reported e'), t'') := by
  by_cases hholds : ∀ target ∈ targets, t.Holds (t.cursor + target.offset)
  · rw [spread_of_holds hword hholds] at h
    cases h
  · obtain ⟨target, htarget⟩ := Classical.not_forall.mp hholds
    obtain ⟨hmem, hnot⟩ := Classical.not_imp.mp htarget
    obtain ⟨front, missing, behind, -, -, -, hspread⟩ :=
      spread_of_not_holds value hword ⟨target, hmem, hnot⟩
    rw [hspread] at h
    cases h
    have hmissing : ∃ target ∈ (targets.map Target.reflect).reverse,
        ¬t.reflect.Holds (t.reflect.cursor + target.offset) :=
      ⟨target.reflect, List.mem_reverse.mpr (List.mem_map_of_mem hmem),
        fun hholds' => hnot ((holds_reflect hcursor _).mp hholds')⟩
    obtain ⟨front', missing', behind', -, -, -, hspread'⟩ :=
      spread_of_not_holds value (inWord_reflect hword') hmissing
    exact ⟨_, _, _, rfl, hspread'⟩

end Copies

/-! ## Effects -/

section Effects

variable {effect : Effect} {value : UInt8} (hcursor : t.cursor < t.size)
  (hword : ∀ targets, effect = .copy targets → ∀ target ∈ targets,
    t.InWord target.offset ∧ t.reflect.InWord (-target.offset))

include hcursor hword

theorem applied_reflect (h : t.applied effect value = (.ok (), t')) :
    t.reflect.applied effect.reflect value = (.ok (), t'.reflect) := by
  cases effect with
  | add | sub | clear =>
    cases h
    exact reflect_faithful.store_ok hcursor _
  | read | write =>
    cases h
    rfl
  | scan d =>
    cases h
    exact congrArg (Prod.mk _) (scan_reflect d hcursor)
  | copy targets =>
    have hword := hword targets rfl
    exact reflect_faithful.applied_copy hcursor (fun t₁ => spread_reflect hcursor
      (fun target h => (hword target h).1) fun target h => (hword target h).2) h

theorem applied_reflect_error {failure : Failure OffTape}
    (h : t.applied effect value = (.error failure, t')) :
    ∃ e e' t'', failure = .reported e ∧
      t.reflect.applied effect.reflect value = (.error (.reported e'), t'') := by
  cases effect with
  | copy targets =>
    unfold applied Effect.reflect at *
    dsimp only at h ⊢
    split at h
    next => cases h
    next hvalue =>
      rw [if_neg hvalue]
      split at h
      next => cases h
      next failure' t₁ hspread =>
        cases h
        have hword := hword targets rfl
        obtain ⟨e, e', t₂, rfl, hspread'⟩ := spread_reflect_error hcursor
          (fun target h => (hword target h).1) (fun target h => (hword target h).2) hspread
        rw [hspread']
        exact ⟨e, e', t₂, rfl, rfl⟩
  | _ => cases h

end Effects

end Tape

/-! ## Turns -/

theorem isSilent_reflect (effect : Effect) : effect.reflect.isSilent = effect.isSilent := by
  cases effect <;> rfl

theorem Program.get?_reflect (p : Program) (index : Nat) :
    p.reflect.get? index = (p.get? index).map Opcode.reflect := Array.getElem?_map

namespace Machine

variable {p : Program} {t : Tape} {position steps size bound : Nat} {r : Turn} {m' : Machine}

/-- A position that fits into a word fits into one from the other side. -/
theorem inWord_reflect_of_placed (hword : ((bound + size : Nat) : Int) ≤ greatestPosition)
    (hplaced : t.Placed size) (hpos : 0 < size) {offset : Int} (hoffset : offset.natAbs ≤ bound) :
    t.InWord offset ∧ t.reflect.InWord (-offset) := by
  have hcursor : t.cursor < t.size := hplaced.size_eq ▸ hplaced.cursor_lt hpos
  have hplaced' : t.reflect.Placed size :=
    .of_lt (t.size_reflect.trans hplaced.size_eq) (Tape.cursor_reflect_lt hcursor)
  exact ⟨inWord_of_placed hword hplaced hoffset,
    inWord_of_placed hword hplaced' (Int.natAbs_neg offset ▸ hoffset)⟩

/-- **The same turn is taken from the other side**, or both turns fail since a cell is missing. -/
theorem turn_reflect (hwithin : p.Within bound)
    (hword : ((bound + size : Nat) : Int) ≤ greatestPosition) (hplaced : t.Placed size)
    (hpos : 0 < size) (hturn : turn ⟨p, t, position, steps⟩ = (r, m')) :
    ((∀ failure, r ≠ .failed failure) ∧
      turn ⟨p.reflect, t.reflect, position, steps⟩ = (r, m'.seen p.reflect Tape.reflect)) ∨
    ∃ e e' m'', r = .failed (.reported (.offTape e)) ∧
      turn ⟨p.reflect, t.reflect, position, steps⟩ =
        (.failed (.reported (.offTape e')), m'') := by
  have hcursor : t.cursor < t.size := hplaced.size_eq ▸ hplaced.cursor_lt hpos
  have hget' {o : Opcode} (hget : p.get? position = some o) :
      p.reflect.get? position = some o.reflect := by
    rw [Program.get?_reflect, hget]
    rfl
  cases turn_cases hturn with
  | halted hend =>
    have hend' : p.reflect.get? position = none := by
      rw [Program.get?_reflect, hend]
      rfl
    have hseen : turn ⟨p.reflect, t.reflect, position, steps⟩ = turnSeen p.reflect Tape.reflect
        (turn ⟨p, t, position, steps⟩) := turn_seen_of_none hend hend'
    rw [hturn] at hseen
    exact .inl ⟨fun _ => nofun, hseen⟩
  | refused hget hmove =>
    obtain ⟨hmoved, hmoved'⟩ :=
      inWord_reflect_of_placed hword hplaced hpos (hwithin.move_le _ _ _ hget)
    obtain ⟨e, e', rfl, hmove'⟩ := Tape.moveBy_reflect_error hcursor hmoved hmoved' hmove
    exact .inr ⟨e, e', _, rfl, turn_of_moveBy_error (hget' hget) hmove'⟩
  | @landed move action t' value _ _ hget hmove hcell hact =>
    obtain ⟨hmoved, hmoved'⟩ :=
      inWord_reflect_of_placed hword hplaced hpos (hwithin.move_le _ _ _ hget)
    have hmove' := Tape.moveBy_reflect hcursor hmoved hmoved' hmove
    have hlt := (Tape.moveBy_eq_ok hmove).2.1
    have htargets : ∀ effect, action = .perform effect → ∀ targets, effect = .copy targets →
        ∀ target ∈ targets, t'.InWord target.offset ∧ t'.reflect.InWord (-target.offset) := by
      rintro _ rfl targets rfl target htarget
      exact inWord_reflect_of_placed hword (hplaced.moveBy hmove) hpos
        (hwithin.offset_le _ _ _ hget _ htarget)
    have hseen (h : Action.Alike Tape.reflect t' value action action.reflect) :
        turn ⟨p.reflect, t.reflect, position, steps⟩ = (r, m'.seen p.reflect Tape.reflect) := by
      have hturn' : turn ⟨p.reflect, t.reflect, position, steps⟩ = turnSeen p.reflect Tape.reflect
          (turn ⟨p, t, position, steps⟩) :=
        turn_seen Tape.reflect_faithful hget (hget' hget) hmove hmove' hcell h
      rw [hturn] at hturn'
      exact hturn'
    cases act_cases hact with
    | beginLoop partner => exact .inl ⟨fun _ => nofun, hseen (.beginLoop partner)⟩
    | endLoop partner => exact .inl ⟨fun _ => nofun, hseen (.endLoop partner)⟩
    | reads => exact .inl ⟨fun _ => nofun, hseen .read⟩
    | writes => exact .inl ⟨fun _ => nofun, hseen .write⟩
    | @applied effect _ hsilent happlied =>
      have hsilent' := (isSilent_reflect effect).trans hsilent
      exact .inl ⟨fun _ => nofun, hseen (.applied hsilent hsilent' happlied
        (Tape.applied_reflect hlt (htargets _ rfl) happlied))⟩
    | refused hsilent happlied =>
      obtain ⟨e, e', t'', rfl, happlied'⟩ :=
        Tape.applied_reflect_error hlt (htargets _ rfl) happlied
      have hcell' := (Tape.reflect_faithful.cell t' hlt).trans hcell
      exact .inr ⟨e, e', _, rfl, (turn_of_moveBy (hget' hget) hmove' hcell').trans
        (perform_of_applied_error happlied')⟩

end Machine

/-! ## Dispatches -/

/-- Two failures of the same kind. Which cell was missing may differ. -/
inductive Failure.Alike : Failure Error → Failure Error → Prop
  | offTape (e e' : OffTape) : Alike (.reported (.offTape e)) (.reported (.offTape e'))
  | io (e : DeviceError) : Alike (.reported (.io e)) (.reported (.io e))

namespace Session

variable {σ : Type} {io : Console σ} {p : Program} {size bound : Nat} {s s' : Session σ}

/-- The session seen from the other side of its tape. -/
def reflect : Session σ → Session σ
  | ⟨⟨program, tape, position, steps⟩, device⟩ =>
    ⟨⟨program.reflect, tape.reflect, position, steps⟩, device⟩

/-- What a row of dispatches comes to, and what it comes to from the other side. Where a dispatch
fails, both have read and written the same, and fail in the same way. -/
inductive Mirrored : Except (Failure Error × Session σ) (Session σ) →
    Except (Failure Error × Session σ) (Session σ) → Prop
  | ok (s : Session σ) : Mirrored (.ok s) (.ok s.reflect)
  | failed {failure failure' : Failure Error} {s s' : Session σ} (hkind : failure.Alike failure')
      (hdevice : s'.device = s.device) : Mirrored (.error (failure, s)) (.error (failure', s'))

section Dispatches

variable (hwithin : p.Within bound) (hword : ((bound + size : Nat) : Int) ≤ greatestPosition)
  (hpos : 0 < size)

include hwithin hword hpos

/-- **The same dispatch is made from the other side**, or both fail in the same way. -/
theorem dispatch_reflect (hprogram : s.machine.program = p) (hplaced : s.machine.tape.Placed size)
    {answer : Except (Failure Error) Unit} (hdispatch : s.dispatch io = (answer, s')) :
    (answer = .ok () ∧ s.reflect.dispatch io = (.ok (), s'.reflect)) ∨
    ∃ failure failure' s'', answer = .error failure ∧ failure.Alike failure' ∧
      s.reflect.dispatch io = (.error failure', s'') ∧ s''.device = s'.device := by
  have hsame := program_of_dispatch hdispatch
  obtain ⟨⟨q, t, position, steps⟩, device⟩ := s
  obtain rfl : q = p := hprogram
  rcases hturn : Machine.turn ⟨q, t, position, steps⟩ with ⟨r, m'⟩
  rcases Machine.turn_reflect hwithin hword hplaced hpos hturn with
    ⟨hok, hturn'⟩ | ⟨e, e', m'', rfl, hturn'⟩
  · have hseen := dispatch_seen (s := ⟨⟨q, t, position, steps⟩, device⟩) Tape.reflect_faithful
      (hturn'.trans (congrArg (Machine.turnSeen _ _) hturn.symm)) hdispatch
    have hreflect : s'.seen q.reflect Tape.reflect = s'.reflect := by
      obtain ⟨⟨q', t', position', steps'⟩, device'⟩ := s'
      obtain rfl : q' = q := hsame
      rfl
    rw [hreflect] at hseen
    cases dispatch_cases hdispatch with
    | halted | moved | read | wrote => exact .inl ⟨rfl, hseen⟩
    | readFailed | writeFailed => exact .inr ⟨_, _, _, rfl, .io _, hseen, rfl⟩
    | failed hfailed =>
      rw [hturn, Prod.mk.injEq] at hfailed
      exact absurd hfailed.1 (hok _)
  · rw [dispatch_of_failed hturn] at hdispatch
    cases hdispatch
    exact .inr ⟨_, _, _, rfl, .offTape e e', dispatch_of_failed hturn', rfl⟩

/-- **A row of dispatches is mirrored.** -/
theorem after_mirrored (hwellFormed : p.WellFormed) (hsound : s.machine.Sound p size) (n : Nat) :
    Mirrored (s.after io n) (s.reflect.after io n) := by
  induction n generalizing s with
  | zero => exact .ok s
  | succ n ih =>
    rcases hdispatch : s.dispatch io with ⟨answer, s'⟩
    rcases dispatch_reflect hwithin hword hpos hsound.program_eq hsound.placed hdispatch with
      ⟨rfl, hdispatch'⟩ | ⟨failure, failure', s'', rfl, hkind, hdispatch', hdevice⟩
    · rw [after_succ_of_ok hdispatch, after_succ_of_ok hdispatch']
      exact ih (dispatch_sound hwellFormed hwithin hword hsound hdispatch).1
    · rw [after_succ_of_error hdispatch, after_succ_of_error hdispatch']
      exact .failed hkind hdevice

end Dispatches

end Session

namespace Program

/-- **A text with `<` and `>` exchanged does the same from the other side of the tape.** It compiles
to the same program with all distances negated, or is refused for the same bracket. On the reflected
tape, that program comes to the reflected tape after any number of dispatches, at the same opcode,
after as many others, and with the same bytes read and written, or the same dispatch fails, in the
same way. -/
theorem compile_reflect {σ : Type} (io : Console σ) (device : σ) (text : String) :
    compile (reflectText text) = (compile text).map reflect ∧
    ∀ p t, compile text = .ok p → t.cursor < t.size →
      ((text.utf8ByteSize + t.size : Nat) : Int) ≤ greatestPosition →
      ∀ n, Session.Mirrored (Session.after io.logged n ⟨.start p t, (device, [])⟩)
        (Session.after io.logged n ⟨.start p.reflect t.reflect, (device, [])⟩) := by
  refine ⟨compile_reflectText text, ?_⟩
  intro p t hcompile hcursor hsize n
  have hlength := Plain.length_commandsOf_le text
  have hword : (((Plain.commandsOf text).length + t.size : Nat) : Int) ≤ greatestPosition := by
    omega
  exact Session.after_mirrored (s := ⟨.start p t, (device, [])⟩) (compile_within hcompile) hword
    (Nat.zero_lt_of_lt hcursor) (wellFormed_of_compile hcompile)
    (Machine.start_sound (.of_lt rfl hcursor) p) n

/-- A copy to two cells, a scan, and a move off the tape, to the right and to the left. -/
theorem compile_reflect_copy_and_scan :
    ∃ (p : Program) (t : Tape), compile "+[->+>+<<]>[<]<<." = .ok p ∧
      reflectText "+[->+>+<<]>[<]<<." = "+[-<+<+>>]<[>]>>." ∧
      compile "+[-<+<+>>]<[>]>>." = .ok p.reflect ∧
      t = ⟨#[0, 0, 7], 0⟩ ∧ t.reflect = ⟨#[7, 0, 0], 2⟩ ∧ t.cursor < t.size ∧
      (("+[->+>+<<]>[<]<<.".utf8ByteSize + t.size : Nat) : Int) ≤ greatestPosition ∧
      Session.after Console.fed.logged 4 ⟨.start p t, (.start (.bytes []), [])⟩ =
        .error (.reported (.offTape ⟨-2, 3⟩),
          ⟨⟨p, ⟨#[0, 1, 8], 0⟩, 3, 3⟩, (.start (.bytes []), [])⟩) ∧
      ∀ n, Session.Mirrored
        (Session.after Console.fed.logged n ⟨.start p t, (.start (.bytes []), [])⟩)
        (Session.after Console.fed.logged n
          ⟨.start p.reflect t.reflect, (.start (.bytes []), [])⟩) := by
  have hcompile : compile "+[->+>+<<]>[<]<<." =
      .ok ⟨#[⟨0, .perform (.add 1)⟩, ⟨0, .perform (.copy [⟨1, 1⟩, ⟨2, 1⟩])⟩,
        ⟨1, .perform (.scan .left)⟩, ⟨-2, .perform .write⟩]⟩ := by decide +kernel
  have htext : reflectText "+[->+>+<<]>[<]<<." = "+[-<+<+>>]<[>]>>." := by decide +kernel
  obtain ⟨hreflect, hmirrored⟩ := compile_reflect Console.fed (.start (.bytes []))
    "+[->+>+<<]>[<]<<."
  rw [htext, hcompile] at hreflect
  exact ⟨_, ⟨#[0, 0, 7], 0⟩, hcompile, htext, hreflect, rfl, by decide +kernel, by decide,
    by decide +kernel, rfl, hmirrored _ ⟨#[0, 0, 7], 0⟩ hcompile (by decide) (by decide +kernel)⟩

end Program

end Brainfuck
