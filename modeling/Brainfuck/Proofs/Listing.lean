import Brainfuck.Program

/-!
# A listing tells its program

Two programs with the same listing are the same program (`Program.listing_inj`): what every opcode
does, its move, its count, targets or partner can all be read off the text.

The parts of a line are put one behind the other without a length in front of them. What keeps them
apart is that each part is a run of characters of one kind, digits say, and that the character
behind it is of another kind (`append_inj_of_stop`). So there is one lemma for each part of a line,
which says that the part and what follows it can be told from the two together: numbers
(`Text.nat_append_inj`, `Text.int_append_inj`), targets, opcodes, lines. The number of a line
needs no reading, however wide it is, since two listings number their lines alike.
-/

namespace Brainfuck

/-- The characters start with one that is not of the kind. -/
def StopsAt (kind : Char → Bool) (rest : List Char) : Prop :=
  ∃ c tail, rest = c :: tail ∧ kind c = false

theorem stopsAt_cons {kind : Char → Bool} {c : Char} (h : kind c = false) (tail : List Char) :
    StopsAt kind (c :: tail) :=
  ⟨c, tail, rfl, h⟩

/-- A run of characters of one kind ends where one of another kind comes. -/
theorem append_inj_of_stop {kind : Char → Bool} {run run' rest rest' : List Char}
    (hrun : ∀ c ∈ run, kind c = true) (hrun' : ∀ c ∈ run', kind c = true)
    (hrest : StopsAt kind rest) (hrest' : StopsAt kind rest')
    (h : run ++ rest = run' ++ rest') : run = run' ∧ rest = rest' := by
  have htake : ∀ {run rest : List Char}, (∀ c ∈ run, kind c = true) → StopsAt kind rest →
      (run ++ rest).takeWhile kind = run := by
    intro run rest hrun hrest
    obtain ⟨c, tail, rfl, hc⟩ := hrest
    rw [List.takeWhile_append_of_pos hrun, List.takeWhile_cons_of_neg (by simp [hc]),
      List.append_nil]
  have hsame : run = run' := by rw [← htake hrun hrest, h, htake hrun' hrest']
  subst hsame
  exact ⟨rfl, List.append_cancel_left h⟩

/-! ## Numbers -/

namespace Text

/-- The characters in which whole numbers are written. -/
def isNumeral (c : Char) : Bool := c.isDigit || c = '-'

theorem isDigit_of_mem_nat {n : Nat} {c : Char} (h : c ∈ (toString n).toList) :
    c.isDigit = true := by
  rw [Nat.toString_eq_repr, Nat.toList_repr] at h
  exact Nat.isDigit_of_mem_toDigits (by decide) (by decide) h

theorem nat_inj {m n : Nat} (h : (toString m).toList = (toString n).toList) : m = n := by
  rw [Nat.toString_eq_repr, Nat.toString_eq_repr, Nat.toList_repr, Nat.toList_repr] at h
  have hvalue := congrArg (fun digits => Nat.ofDigitChars 10 digits 0) h
  simpa only [Nat.ofDigitChars_ten_toDigits] using hvalue

theorem nat_append_inj {m n : Nat} {rest rest' : List Char}
    (hrest : StopsAt Char.isDigit rest) (hrest' : StopsAt Char.isDigit rest')
    (h : (toString m).toList ++ rest = (toString n).toList ++ rest') : m = n ∧ rest = rest' := by
  obtain ⟨hdigits, htail⟩ := append_inj_of_stop (fun c => isDigit_of_mem_nat)
    (fun c => isDigit_of_mem_nat) hrest hrest' h
  exact ⟨nat_inj hdigits, htail⟩

/-- A whole number is written with a sign if it is negative. -/
theorem toList_int (i : Int) : (toString i).toList =
    if 0 ≤ i then (toString i.toNat).toList else '-' :: (toString (-i).toNat).toList := by
  rw [Int.toString_eq_repr, Int.repr_eq_if]
  split
  · rfl
  · rw [String.toList_append]
    rfl

theorem toList_int_ne_nil (i : Int) : (toString i).toList ≠ [] := by
  rw [toList_int, Nat.toString_eq_repr, Nat.toList_repr]
  split
  · exact Nat.toDigits_ne_nil
  · exact List.cons_ne_nil _ _

theorem isNumeral_of_mem_int {i : Int} {c : Char} (h : c ∈ (toString i).toList) :
    isNumeral c = true := by
  rw [toList_int] at h
  unfold isNumeral
  split at h
  · simp [isDigit_of_mem_nat h]
  · rcases List.mem_cons.mp h with hc | hc
    · simp [hc]
    · simp [isDigit_of_mem_nat hc]

/-- No natural number is written with a sign. -/
theorem toList_nat_ne_minus {n : Nat} {tail : List Char} : (toString n).toList ≠ '-' :: tail := by
  intro h
  have hdigit : Char.isDigit '-' = true :=
    isDigit_of_mem_nat (h ▸ List.mem_cons_self)
  exact absurd hdigit (by decide)

theorem int_inj {i j : Int} (h : (toString i).toList = (toString j).toList) : i = j := by
  rw [toList_int, toList_int] at h
  by_cases hi : 0 ≤ i
  · by_cases hj : 0 ≤ j
    · rw [if_pos hi, if_pos hj] at h
      have := nat_inj h
      omega
    · rw [if_pos hi, if_neg hj] at h
      exact absurd h toList_nat_ne_minus
  · by_cases hj : 0 ≤ j
    · rw [if_neg hi, if_pos hj] at h
      exact absurd h.symm toList_nat_ne_minus
    · rw [if_neg hi, if_neg hj, List.cons.injEq] at h
      have := nat_inj h.2
      omega

theorem int_append_inj {i j : Int} {rest rest' : List Char}
    (hrest : StopsAt isNumeral rest) (hrest' : StopsAt isNumeral rest')
    (h : (toString i).toList ++ rest = (toString j).toList ++ rest') : i = j ∧ rest = rest' := by
  obtain ⟨hdigits, htail⟩ := append_inj_of_stop (fun c => isNumeral_of_mem_int)
    (fun c => isNumeral_of_mem_int) hrest hrest' h
  exact ⟨int_inj hdigits, htail⟩

end Text

open Text

/-! ## Targets -/

theorem Target.toList_text (t : Target) :
    t.text.toList = (toString t.offset).toList ++ ':' :: ' ' :: (toString t.factor).toList := by
  simp only [Target.text, String.toList_append]
  rw [List.append_assoc]
  rfl

theorem Target.text_append_inj {t u : Target} {rest rest' : List Char}
    (hrest : StopsAt Char.isDigit rest) (hrest' : StopsAt Char.isDigit rest')
    (h : t.text.toList ++ rest = u.text.toList ++ rest') : t = u ∧ rest = rest' := by
  obtain ⟨offset, factor⟩ := t
  obtain ⟨offset', factor'⟩ := u
  simp only [Target.toList_text, List.append_assoc, List.cons_append] at h
  obtain ⟨hoffset, htail⟩ := int_append_inj (stopsAt_cons (by decide) _)
    (stopsAt_cons (by decide) _) h
  rw [List.cons.injEq, List.cons.injEq] at htail
  obtain ⟨hfactor, hrest⟩ := nat_append_inj hrest hrest' htail.2.2
  rw [hoffset, hfactor]
  exact ⟨rfl, hrest⟩

/-- What a listing shows of the targets behind the first. -/
def laterTargets (targets : List Target) : List Char :=
  targets.flatMap fun t => ',' :: ' ' :: t.text.toList

theorem laterTargets_cons (t : Target) (targets : List Target) :
    laterTargets (t :: targets) = ',' :: ' ' :: (t.text.toList ++ laterTargets targets) :=
  List.flatMap_cons

theorem toList_targets (t : Target) (targets : List Target) :
    (", ".intercalate ((t :: targets).map Target.text)).toList =
      t.text.toList ++ laterTargets targets := by
  induction targets generalizing t with
  | nil => simp [laterTargets]
  | cons u targets ih =>
    rw [List.map_cons, List.map_cons, String.intercalate_cons_cons, ← List.map_cons,
      String.toList_append, String.toList_append, ih, laterTargets_cons, List.append_assoc]
    rfl

theorem stopsAt_laterTargets (targets : List Target) (rest : List Char) :
    StopsAt Char.isDigit (laterTargets targets ++ '\x7d' :: rest) := by
  cases targets with
  | nil => exact stopsAt_cons (by decide) _
  | cons t targets =>
    rw [laterTargets_cons]
    exact stopsAt_cons (by decide) _

theorem laterTargets_append_inj {targets targets' : List Target} {rest rest' : List Char}
    (h : laterTargets targets ++ '\x7d' :: rest = laterTargets targets' ++ '\x7d' :: rest') :
    targets = targets' ∧ rest = rest' := by
  induction targets generalizing targets' with
  | nil =>
    cases targets' with
    | nil => exact ⟨rfl, (List.cons.inj h).2⟩
    | cons t' targets' =>
      rw [laterTargets_cons] at h
      exact absurd (List.cons.inj h).1 (by decide)
  | cons t targets ih =>
    cases targets' with
    | nil =>
      rw [laterTargets_cons] at h
      exact absurd (List.cons.inj h).1 (by decide)
    | cons t' targets' =>
      simp only [laterTargets_cons, List.cons_append, List.append_assoc, List.cons.injEq,
        true_and] at h
      obtain ⟨ht, hlater⟩ := Target.text_append_inj (stopsAt_laterTargets _ _)
        (stopsAt_laterTargets _ _) h
      obtain ⟨htargets, hrest⟩ := ih hlater
      rw [ht, htargets]
      exact ⟨rfl, hrest⟩

/-- A target is shown by more than nothing, and does not start with the brace behind all of them. -/
theorem Target.text_append_ne {t : Target} {rest rest' : List Char} :
    t.text.toList ++ rest ≠ '\x7d' :: rest' := by
  intro h
  rw [Target.toList_text, List.append_assoc] at h
  have hempty : (toString t.offset).toList = [] :=
    (append_inj_of_stop (fun _ => isNumeral_of_mem_int) (fun _ hc => absurd hc List.not_mem_nil)
      (stopsAt_cons (by decide) _) (stopsAt_cons (by decide) rest') h).1
  exact toList_int_ne_nil _ hempty

theorem targets_append_inj {targets targets' : List Target} {rest rest' : List Char}
    (h : (", ".intercalate (targets.map Target.text)).toList ++ '\x7d' :: rest =
      (", ".intercalate (targets'.map Target.text)).toList ++ '\x7d' :: rest') :
    targets = targets' ∧ rest = rest' := by
  cases targets with
  | nil =>
    cases targets' with
    | nil => exact ⟨rfl, (List.cons.inj h).2⟩
    | cons t' targets' =>
      rw [toList_targets, List.append_assoc] at h
      exact absurd h.symm Target.text_append_ne
  | cons t targets =>
    cases targets' with
    | nil =>
      rw [toList_targets, List.append_assoc] at h
      exact absurd h Target.text_append_ne
    | cons t' targets' =>
      rw [toList_targets, toList_targets, List.append_assoc, List.append_assoc] at h
      obtain ⟨ht, hlater⟩ := Target.text_append_inj (stopsAt_laterTargets _ _)
        (stopsAt_laterTargets _ _) h
      obtain ⟨htargets, hrest⟩ := laterTargets_append_inj hlater
      rw [ht, htargets]
      exact ⟨rfl, hrest⟩

/-! ## Effects and actions -/

theorem toList_count (count : Nat) : s!" {count}".toList = ' ' :: (toString count).toList := by
  rw [String.toList_append]
  rfl

theorem toList_partner (partner : Nat) :
    s!" -> {partner}".toList = ' ' :: '-' :: '>' :: ' ' :: (toString partner).toList := by
  rw [String.toList_append]
  rfl

theorem toList_copy (targets : List Target) :
    (" \x7b" ++ ", ".intercalate (targets.map Target.text) ++ "\x7d").toList =
      ' ' :: '\x7b' :: ((", ".intercalate (targets.map Target.text)).toList ++ ['\x7d']) := by
  rw [String.toList_append, String.toList_append]
  rfl

theorem count_append_inj {m n : Nat} {rest rest' : List Char}
    (h : s!" {m}".toList ++ '\n' :: rest = s!" {n}".toList ++ '\n' :: rest') :
    m = n ∧ rest = rest' := by
  rw [toList_count, toList_count] at h
  obtain ⟨hcount, hrest⟩ := nat_append_inj (stopsAt_cons (by decide) _)
    (stopsAt_cons (by decide) _) (List.cons.inj h).2
  exact ⟨hcount, (List.cons.inj hrest).2⟩

theorem partner_append_inj {m n : Nat} {rest rest' : List Char}
    (h : s!" -> {m}".toList ++ '\n' :: rest = s!" -> {n}".toList ++ '\n' :: rest') :
    m = n ∧ rest = rest' := by
  rw [toList_partner, toList_partner] at h
  simp only [List.cons_append, List.cons.injEq, true_and] at h
  obtain ⟨hpartner, hrest⟩ := nat_append_inj (stopsAt_cons (by decide) _)
    (stopsAt_cons (by decide) _) h
  exact ⟨hpartner, (List.cons.inj hrest).2⟩

theorem copy_append_inj {targets targets' : List Target} {rest rest' : List Char}
    (h : (Effect.copy targets).operand.toList ++ '\n' :: rest =
      (Effect.copy targets').operand.toList ++ '\n' :: rest') :
    targets = targets' ∧ rest = rest' := by
  rw [Effect.operand, Effect.operand, toList_copy, toList_copy] at h
  simp only [List.cons_append, List.append_assoc, List.nil_append, List.cons.injEq, true_and] at h
  obtain ⟨htargets, hrest⟩ := targets_append_inj h
  exact ⟨htargets, (List.cons.inj hrest).2⟩

/-- Behind a name the operand can be read off. -/
theorem Effect.operand_append_inj {e f : Effect} {rest rest' : List Char} (hname : e.name = f.name)
    (h : e.operand.toList ++ '\n' :: rest = f.operand.toList ++ '\n' :: rest') :
    e = f ∧ rest = rest' := by
  -- Effects of two kinds have two names, which leaves one case for each kind.
  rcases e with count | count | _ | targets | (_ | _) | _ | _ <;>
    rcases f with count' | count' | _ | targets' | (_ | _) | _ | _ <;>
    simp only [name, String.reduceEq] at hname
  case add.add =>
    obtain ⟨hcount, hrest⟩ := count_append_inj h
    exact ⟨congrArg add hcount, hrest⟩
  case sub.sub =>
    obtain ⟨hcount, hrest⟩ := count_append_inj h
    exact ⟨congrArg sub hcount, hrest⟩
  case copy.copy =>
    obtain ⟨htargets, hrest⟩ := copy_append_inj h
    exact ⟨congrArg copy htargets, hrest⟩
  all_goals exact ⟨rfl, (List.cons.inj h).2⟩

theorem Effect.name_ne (e : Effect) : e.name ≠ "open" ∧ e.name ≠ "close" := by
  rcases e with _ | _ | _ | _ | (_ | _) | _ | _ <;> simp [name]

theorem Action.operand_append_inj {a b : Action} {rest rest' : List Char} (hname : a.name = b.name)
    (h : a.operand.toList ++ '\n' :: rest = b.operand.toList ++ '\n' :: rest') :
    a = b ∧ rest = rest' := by
  cases a with
  | perform e =>
    cases b with
    | perform f =>
      obtain ⟨he, hrest⟩ := Effect.operand_append_inj hname h
      exact ⟨congrArg perform he, hrest⟩
    | beginLoop partner => exact absurd hname e.name_ne.1
    | endLoop partner => exact absurd hname e.name_ne.2
  | beginLoop partner =>
    cases b with
    | perform f => exact absurd hname.symm f.name_ne.1
    | beginLoop partner' =>
      obtain ⟨hpartner, hrest⟩ := partner_append_inj h
      exact ⟨congrArg beginLoop hpartner, hrest⟩
    | endLoop partner' => simp [name] at hname
  | endLoop partner =>
    cases b with
    | perform f => exact absurd hname.symm f.name_ne.2
    | beginLoop partner' => simp [name] at hname
    | endLoop partner' =>
      obtain ⟨hpartner, hrest⟩ := partner_append_inj h
      exact ⟨congrArg endLoop hpartner, hrest⟩

/-! ## Opcodes -/

/-- Names are made of letters, so the blank behind one ends it. -/
theorem Action.isAlpha_of_mem_name {a : Action} {c : Char} (h : c ∈ a.name.toList) :
    c.isAlpha = true := by
  have hletters : a.name.toList.all Char.isAlpha = true := by
    rcases a with (_ | _ | _ | _ | (_ | _) | _ | _) | _ | _ <;> simp only [name, Effect.name] <;>
      decide
  exact List.all_eq_true.mp hletters c h

/-- An operand starts with a blank, if there is one. -/
theorem Action.stopsAt_operand (a : Action) (rest : List Char) :
    StopsAt isNumeral (a.operand.toList ++ '\n' :: rest) := by
  rcases a with (count | count | _ | targets | _ | _ | _) | partner | partner
  case perform.add | perform.sub =>
    rw [operand, Effect.operand, toList_count]
    exact stopsAt_cons (by decide) _
  case perform.copy =>
    rw [operand, Effect.operand, toList_copy]
    exact stopsAt_cons (by decide) _
  case beginLoop | endLoop =>
    rw [operand, toList_partner]
    exact stopsAt_cons (by decide) _
  all_goals exact stopsAt_cons (by decide) _

theorem Opcode.toList_text (o : Opcode) : o.text.toList =
    o.action.name.toList ++ ' ' :: ((toString o.move).toList ++ o.action.operand.toList) := by
  simp only [Opcode.text, String.toList_append]
  rw [List.append_assoc, List.append_assoc]
  rfl

theorem Opcode.text_append_inj {o o' : Opcode} {rest rest' : List Char}
    (h : o.text.toList ++ '\n' :: rest = o'.text.toList ++ '\n' :: rest') :
    o = o' ∧ rest = rest' := by
  obtain ⟨move, action⟩ := o
  obtain ⟨move', action'⟩ := o'
  simp only [Opcode.toList_text, List.append_assoc, List.cons_append] at h
  obtain ⟨hname, hmove⟩ := append_inj_of_stop (fun _ => Action.isAlpha_of_mem_name)
    (fun _ => Action.isAlpha_of_mem_name) (stopsAt_cons (by decide) _)
    (stopsAt_cons (by decide) _) h
  obtain ⟨rfl, hoperand⟩ := int_append_inj (action.stopsAt_operand rest)
    (action'.stopsAt_operand rest') (List.cons.inj hmove).2
  obtain ⟨rfl, hrest⟩ := Action.operand_append_inj (String.toList_inj.mp hname) hoperand
  exact ⟨rfl, hrest⟩

namespace Program

/-! ## Lines -/

theorem toList_line (index : Nat) (o : Opcode) : (line index o).toList =
    (column index).toList ++ ' ' :: ' ' :: (o.text.toList ++ ['\n']) := by
  simp only [line, String.toList_append]
  rw [List.append_assoc, List.append_assoc]
  rfl

/-- Two lines with the same number show the same only if they are of one opcode. -/
theorem line_append_inj {index : Nat} {o o' : Opcode} {rest rest' : List Char}
    (h : (line index o).toList ++ rest = (line index o').toList ++ rest') :
    o = o' ∧ rest = rest' := by
  rw [toList_line, toList_line, List.append_assoc, List.append_assoc] at h
  have htext := List.append_cancel_left h
  simp only [List.cons_append, List.append_assoc, List.nil_append, List.cons.injEq, true_and]
    at htext
  exact Opcode.text_append_inj htext

/-- The lines of the opcodes, the first of which has the given number. -/
def linesFrom (index : Nat) (opcodes : List Opcode) : List Char :=
  (opcodes.zipIdx index).flatMap fun (opcode, index) => (line index opcode).toList

theorem linesFrom_cons (index : Nat) (o : Opcode) (opcodes : List Opcode) :
    linesFrom index (o :: opcodes) = (line index o).toList ++ linesFrom (index + 1) opcodes := by
  rw [linesFrom, List.zipIdx_cons, List.flatMap_cons]
  rfl

theorem linesFrom_cons_ne_nil {index : Nat} {o : Opcode} {opcodes : List Opcode} :
    linesFrom index (o :: opcodes) ≠ [] := by
  rw [linesFrom_cons, toList_line]
  simp

theorem linesFrom_inj {index : Nat} {opcodes opcodes' : List Opcode}
    (h : linesFrom index opcodes = linesFrom index opcodes') : opcodes = opcodes' := by
  induction opcodes generalizing index opcodes' with
  | nil =>
    cases opcodes' with
    | nil => rfl
    | cons o' opcodes' => exact absurd h.symm linesFrom_cons_ne_nil
  | cons o opcodes ih =>
    cases opcodes' with
    | nil => exact absurd h linesFrom_cons_ne_nil
    | cons o' opcodes' =>
      rw [linesFrom_cons, linesFrom_cons] at h
      obtain ⟨ho, hlater⟩ := line_append_inj h
      rw [ho, ih hlater]

theorem toList_listing (p : Program) : p.listing.toList = linesFrom 0 p.code.toList := by
  rw [listing, String.toList_join, List.flatMap_map]
  rfl

/-- **A listing tells its program**: only a program that is the same, opcode by opcode, has it. -/
theorem listing_inj (p q : Program) : p.listing = q.listing ↔ p = q := by
  constructor
  · intro h
    have hlines : linesFrom 0 p.code.toList = linesFrom 0 q.code.toList := by
      rw [← toList_listing, ← toList_listing, h]
    have hcode : p.code = q.code := Array.toList_inj.mp (linesFrom_inj hlines)
    rw [← Program.mk.injEq] at hcode
    exact hcode
  · intro h
    rw [h]

end Program

end Brainfuck
