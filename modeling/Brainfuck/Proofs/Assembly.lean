import Brainfuck.Program.Compile
import Brainfuck.Proofs.Spelling
import Mathlib.Data.List.Induction

/-!
# What an assembly holds

A half-built program differs from the finished one in the starts of the loops that are still open:
their partners are missing. Two invariants say that nothing else will change.

* `addAll_settled`: an opcode that is not the start of an open loop stays as it is, whatever is
  assembled behind it.
* `addAll_of_neverBelow`: phrases that never close more than they open are assembled without error.
  The loops that were open before stay open below the new ones, and the opcodes from before stay as
  they are.

With them the opcodes of a finished program are read off its phrases. The opcode of a phrase stands
behind as many others as phrases in front of it make opcodes (`opcodeCount`) and carries the moves
since the last of these (`carried`): `get?_effect` for effects, `get?_loop` for the two ends of a
loop, which name each other.

A row of phrases is assembled exactly if its brackets are balanced (`ofPhrases_of_balanced`,
`ofPhrases_of_surplusAt`, `ofPhrases_of_openAt`).
-/

namespace Brainfuck

namespace Phrase

/-- The phrase is compiled into an opcode of its own. -/
def makesOpcode : Phrase → Bool
  | move _ => false
  | _ => true

/-- The moves held back behind a phrase, if `pending` were held back in front of it. -/
def carry (pending : Int) : Phrase → Int
  | move d => pending + d.unit
  | _ => 0

end Phrase

/-- The number of opcodes that phrases are compiled into. -/
def opcodeCount (phrases : List Phrase) : Nat := phrases.countP Phrase.makesOpcode

/-- The sum of the moves behind the last phrase that is no move. -/
def carried (phrases : List Phrase) : Int := phrases.foldl Phrase.carry 0

@[simp] theorem opcodeCount_append (front behind : List Phrase) :
    opcodeCount (front ++ behind) = opcodeCount front + opcodeCount behind :=
  List.countP_append

theorem opcodeCount_cons (phrase : Phrase) (phrases : List Phrase) :
    opcodeCount (phrase :: phrases) = opcodeCount phrases + if phrase.makesOpcode then 1 else 0 :=
  List.countP_cons

theorem opcodeCount_cons_of_makesOpcode {phrase : Phrase} (h : phrase.makesOpcode = true)
    (phrases : List Phrase) : opcodeCount (phrase :: phrases) = opcodeCount phrases + 1 := by
  rw [opcodeCount_cons, if_pos h]

theorem carried_concat (phrases : List Phrase) (phrase : Phrase) :
    carried (phrases ++ [phrase]) = phrase.carry (carried phrases) := by
  simp only [carried, List.foldl_append, List.foldl_cons, List.foldl_nil]

/-- What is held back starts anew behind a phrase that is no move. -/
theorem carried_append_cons {phrase : Phrase} (h : phrase.makesOpcode = true)
    (front behind : List Phrase) : carried (front ++ phrase :: behind) = carried behind := by
  have hzero : ∀ pending, phrase.carry pending = 0 := by
    intro pending
    cases phrase with
    | move d => cases h
    | _ => rfl
  simp only [carried, List.foldl_append, List.foldl_cons, hzero]

namespace Assembly

/-- Assembles some more phrases. -/
def addAll (a : Assembly) (phrases : List Phrase) : Except UnmatchedBracket Assembly :=
  phrases.foldlM add a

theorem addAll_cons (a : Assembly) (phrase : Phrase) (phrases : List Phrase) :
    a.addAll (phrase :: phrases) = a.add phrase >>= fun a => a.addAll phrases := List.foldlM_cons

theorem addAll_append (a : Assembly) (front behind : List Phrase) :
    a.addAll (front ++ behind) = a.addAll front >>= fun a => a.addAll behind := List.foldlM_append

theorem addAll_singleton (a : Assembly) (phrase : Phrase) : a.addAll [phrase] = a.add phrase := by
  rw [addAll_cons]
  cases a.add phrase <;> rfl

/-- Assembling in two parts, when it goes well. -/
theorem addAll_append_eq_ok {a a'' : Assembly} {front behind : List Phrase} :
    a.addAll (front ++ behind) = .ok a'' ↔
      ∃ a', a.addAll front = .ok a' ∧ a'.addAll behind = .ok a'' := by
  rw [addAll_append]
  cases h : a.addAll front with
  | error e => exact ⟨fun h' => (by cases h'), fun ⟨a', h', _⟩ => by cases h'⟩
  | ok a' => exact ⟨fun h' => ⟨a', rfl, h'⟩, fun ⟨_, h', h''⟩ => by cases h'; exact h''⟩

theorem addAll_cons_eq_ok {a a'' : Assembly} {phrase : Phrase} {phrases : List Phrase} :
    a.addAll (phrase :: phrases) = .ok a'' ↔
      ∃ a', a.add phrase = .ok a' ∧ a'.addAll phrases = .ok a'' := by
  rw [← List.singleton_append, addAll_append_eq_ok, addAll_singleton]

/-! ## Places and moves -/

theorem add_size {a a' : Assembly} {phrase : Phrase} (h : a.add phrase = .ok a') :
    a'.code.size = a.code.size + opcodeCount [phrase] ∧ a'.pending = phrase.carry a.pending := by
  obtain ⟨pending, opened, code⟩ := a
  cases phrase with
  | move d =>
    cases h
    exact ⟨rfl, rfl⟩
  | perform effect =>
    cases h
    exact ⟨Array.size_push .., rfl⟩
  | beginLoop offset =>
    cases h
    exact ⟨Array.size_push .., rfl⟩
  | endLoop offset =>
    cases opened with
    | nil => cases h
    | cons start opened =>
      cases h
      refine ⟨?_, rfl⟩
      show (Array.push _ _).size = _
      rw [Array.size_push, Array.size_modify]
      rfl

/-- Every phrase but a move makes one opcode, and moves add up until one comes. -/
theorem addAll_size {a a' : Assembly} {phrases : List Phrase} (h : a.addAll phrases = .ok a') :
    a'.code.size = a.code.size + opcodeCount phrases ∧
      a'.pending = phrases.foldl Phrase.carry a.pending := by
  induction phrases generalizing a with
  | nil =>
    cases h
    exact ⟨rfl, rfl⟩
  | cons phrase phrases ih =>
    obtain ⟨a₁, hadd, hrest⟩ := addAll_cons_eq_ok.mp h
    obtain ⟨hsize, hpending⟩ := add_size hadd
    obtain ⟨hsize', hpending'⟩ := ih hrest
    refine ⟨?_, ?_⟩
    · rw [hsize', hsize, Nat.add_assoc, ← opcodeCount_append, List.singleton_append]
    · rw [hpending', hpending, List.foldl_cons]

/-! ## What stays as it is -/

/-- Every open loop has its start among the opcodes. -/
def InRange (a : Assembly) : Prop := ∀ start ∈ a.opened, start.index < a.code.size

/-- There is an opcode at the index, and it is not the start of an open loop. -/
def Settled (a : Assembly) (index : Nat) : Prop :=
  index < a.code.size ∧ ∀ start ∈ a.opened, start.index ≠ index

theorem add_inRange {a a' : Assembly} {phrase : Phrase} (h : a.InRange)
    (hadd : a.add phrase = .ok a') : a'.InRange := by
  have hgrows : a.code.size ≤ a'.code.size := by
    rw [(add_size hadd).1]
    exact Nat.le_add_right ..
  have hold : ∀ start ∈ a.opened, start.index < a'.code.size := fun start hstart =>
    Nat.lt_of_lt_of_le (h start hstart) hgrows
  obtain ⟨pending, opened, code⟩ := a
  cases phrase with
  | move d =>
    cases hadd
    exact hold
  | perform effect =>
    cases hadd
    exact hold
  | beginLoop offset =>
    cases hadd
    intro start hstart
    rcases List.mem_cons.mp hstart with rfl | hstart
    · show code.size < (Array.push _ _).size
      rw [Array.size_push]
      exact Nat.lt_succ_self _
    · exact hold start hstart
  | endLoop offset =>
    cases opened with
    | nil => cases hadd
    | cons innermost opened =>
      cases hadd
      exact fun start hstart => hold start (List.mem_cons_of_mem _ hstart)

theorem addAll_inRange {a a' : Assembly} {phrases : List Phrase} (h : a.InRange)
    (hadd : a.addAll phrases = .ok a') : a'.InRange := by
  induction phrases generalizing a with
  | nil =>
    cases hadd
    exact h
  | cons phrase phrases ih =>
    obtain ⟨a₁, hfirst, hrest⟩ := addAll_cons_eq_ok.mp hadd
    exact ih (add_inRange h hfirst) hrest

theorem add_settled {a a' : Assembly} {phrase : Phrase} {index : Nat} (h : a.Settled index)
    (hadd : a.add phrase = .ok a') : a'.Settled index ∧ a'.code[index]? = a.code[index]? := by
  obtain ⟨pending, opened, code⟩ := a
  obtain ⟨hlt, hne⟩ := h
  -- code only grows, so a place that is there stays
  have hpush : ∀ (code' : Array Opcode) (opcode : Opcode), code'.size = code.size →
      index < (code'.push opcode).size ∧ (code'.push opcode)[index]? = code'[index]? := by
    intro code' opcode hsize
    have hlt' : index < code'.size := hsize ▸ hlt
    rw [Array.size_push, Array.getElem?_push, if_neg (Nat.ne_of_lt hlt')]
    exact ⟨Nat.lt_succ_of_lt hlt', rfl⟩
  cases phrase with
  | move d =>
    cases hadd
    exact ⟨⟨hlt, hne⟩, rfl⟩
  | perform effect =>
    cases hadd
    obtain ⟨hlt', hget⟩ := hpush code ⟨pending, .perform effect⟩ rfl
    exact ⟨⟨hlt', hne⟩, hget⟩
  | beginLoop offset =>
    cases hadd
    obtain ⟨hlt', hget⟩ := hpush code ⟨pending, .beginLoop 0⟩ rfl
    refine ⟨⟨hlt', ?_⟩, hget⟩
    intro start hstart
    rcases List.mem_cons.mp hstart with rfl | hstart
    · exact (Nat.ne_of_lt hlt).symm
    · exact hne start hstart
  | endLoop offset =>
    cases opened with
    | nil => cases hadd
    | cons start opened =>
      -- only the start of the innermost loop is patched, and that is another place
      cases hadd
      obtain ⟨hlt', hget⟩ := hpush
        (code.modify start.index fun opcode => { opcode with action := .beginLoop code.size })
        ⟨pending, .endLoop start.index⟩ Array.size_modify
      refine ⟨⟨hlt', fun start' hstart' => hne start' (List.mem_cons_of_mem _ hstart')⟩, ?_⟩
      refine hget.trans ?_
      rw [Array.getElem?_modify, if_neg (hne start List.mem_cons_self)]

/-- **A settled opcode stays as it is.** -/
theorem addAll_settled {a a' : Assembly} {phrases : List Phrase} {index : Nat}
    (h : a.Settled index) (hadd : a.addAll phrases = .ok a') :
    a'.code[index]? = a.code[index]? := by
  induction phrases generalizing a with
  | nil =>
    cases hadd
    rfl
  | cons phrase phrases ih =>
    obtain ⟨a₁, hfirst, hrest⟩ := addAll_cons_eq_ok.mp hadd
    obtain ⟨hsettled, hget⟩ := add_settled h hfirst
    rw [ih hsettled hrest, hget]

/-- What has been assembled on top of `a`: the loops of `a` are still open, and its opcodes are as
they were. -/
structure Above (a a' : Assembly) (phrases : List Phrase) : Prop where
  opened : ∃ new, a'.opened = new ++ a.opened ∧ (new.length : Int) = depth Phrase.bracket? phrases ∧
    ∀ start ∈ new, a.code.size ≤ start.index
  kept : ∀ index < a.code.size, a'.code[index]? = a.code[index]?

/-- Balanced phrases close all that they open. -/
theorem Above.opened_eq {a a' : Assembly} {phrases : List Phrase} (h : Above a a' phrases)
    (hbalanced : Balanced Phrase.bracket? phrases) : a'.opened = a.opened := by
  obtain ⟨new, hopened, hlength, -⟩ := h.opened
  rw [hbalanced.depth_eq_zero] at hlength
  rw [hopened, List.length_eq_zero_iff.mp (Int.natCast_eq_zero.mp hlength), List.nil_append]

/-- One more phrase on top of `a`, unless it closes a loop of `a`. -/
theorem Above.add {a a' : Assembly} {phrases : List Phrase} {phrase : Phrase}
    (h : Above a a' phrases) (hsize : a.code.size ≤ a'.code.size)
    (hnever : 0 ≤ depth Phrase.bracket? phrases + level phrase.bracket?) :
    ∃ a'', a'.add phrase = .ok a'' ∧ Above a a'' (phrases ++ [phrase]) := by
  obtain ⟨pending, opened, code⟩ := a'
  obtain ⟨new, rfl, hlength, hnew⟩ := h.opened
  have hkept : ∀ (code' : Array Opcode) (opcode : Opcode), code'.size = code.size →
      (∀ index < a.code.size, code'[index]? = a.code[index]?) →
      ∀ index < a.code.size, (code'.push opcode)[index]? = a.code[index]? := by
    intro code' opcode hsize' hold index hindex
    have : a.code.size ≤ code.size := hsize
    rw [Array.getElem?_push, if_neg (by omega), hold index hindex]
  have hdepth : depth Phrase.bracket? (phrases ++ [phrase]) =
      depth Phrase.bracket? phrases + level phrase.bracket? := by
    rw [depth_append, depth_singleton]
  cases phrase with
  | move d =>
    refine ⟨_, rfl, ⟨new, rfl, ?_, hnew⟩, h.kept⟩
    rw [hdepth, hlength]
    exact (Int.add_zero _).symm
  | perform effect =>
    refine ⟨_, rfl, ⟨new, rfl, ?_, hnew⟩, hkept code _ rfl h.kept⟩
    rw [hdepth, hlength]
    exact (Int.add_zero _).symm
  | beginLoop offset =>
    refine ⟨_, rfl, ⟨⟨code.size, offset⟩ :: new, rfl, ?_, ?_⟩, hkept code _ rfl h.kept⟩
    · rw [hdepth, List.length_cons, Int.natCast_add, hlength]
      rfl
    · intro start hstart
      rcases List.mem_cons.mp hstart with rfl | hstart
      · exact hsize
      · exact hnew start hstart
  | endLoop offset =>
    cases new with
    | nil =>
      -- nothing new is open, so the depth would fall below zero
      rw [← hlength] at hnever
      change 0 ≤ (0 : Int) + -1 at hnever
      omega
    | cons start new =>
      refine ⟨_, rfl, ⟨new, rfl, ?_, ?_⟩, ?_⟩
      · rw [hdepth, ← hlength, List.length_cons, Int.natCast_add]
        show (new.length : Int) = new.length + 1 + -1
        omega
      · exact fun start' hstart' => hnew start' (List.mem_cons_of_mem _ hstart')
      · refine hkept (code.modify start.index fun opcode => { opcode with action := _ }) _
          Array.size_modify fun index hindex => ?_
        have hstart := hnew start List.mem_cons_self
        rw [Array.getElem?_modify, if_neg (by omega)]
        exact h.kept index hindex

/-- **Phrases that never close more than they open can be assembled on top of anything.** -/
theorem addAll_of_neverBelow (a : Assembly) {phrases : List Phrase}
    (h : NeverBelow Phrase.bracket? phrases) :
    ∃ a', a.addAll phrases = .ok a' ∧ Above a a' phrases := by
  induction phrases using List.reverseRecOn with
  | nil => exact ⟨a, rfl, ⟨[], rfl, rfl, fun _ h => absurd h List.not_mem_nil⟩, fun _ _ => rfl⟩
  | append_singleton phrases phrase ih =>
    obtain ⟨hphrases, hphrase⟩ := neverBelow_concat_iff.mp h
    obtain ⟨a₁, hfront, habove⟩ := ih hphrases
    have hsize : a.code.size ≤ a₁.code.size := by
      rw [(addAll_size hfront).1]
      exact Nat.le_add_right ..
    obtain ⟨a₂, hlast, habove'⟩ := habove.add hsize hphrase
    refine ⟨a₂, addAll_append_eq_ok.mpr ⟨a₁, hfront, ?_⟩, habove'⟩
    rw [addAll_singleton]
    exact hlast

/-- **A whole loop** is assembled into its two ends, with the opcodes of its body between them. -/
theorem addAll_loop (a : Assembly) {body : List Phrase} (hbody : Balanced Phrase.bracket? body)
    (start stop : Nat) :
    ∃ code, a.addAll (.beginLoop start :: body ++ [.endLoop stop]) = .ok ⟨0, a.opened, code⟩ ∧
      code.size = a.code.size + 1 + opcodeCount body + 1 ∧
      code[a.code.size]? =
        some ⟨a.pending, .beginLoop (a.code.size + 1 + opcodeCount body)⟩ ∧
      code[a.code.size + 1 + opcodeCount body]? = some ⟨carried body, .endLoop a.code.size⟩ := by
  obtain ⟨pending, opened, code⟩ := a
  dsimp only
  obtain ⟨⟨pending', opened', code'⟩, hmiddle, habove⟩ :=
    addAll_of_neverBelow ⟨0, ⟨code.size, start⟩ :: opened, code.push ⟨pending, .beginLoop 0⟩⟩
      hbody.neverBelow
  obtain ⟨hcount, hpending⟩ := addAll_size hmiddle
  have hsize : code'.size = code.size + 1 + opcodeCount body := by
    rw [← Array.size_push]
    exact hcount
  have hstart : code'[code.size]? = some ⟨pending, .beginLoop 0⟩ := by
    rw [habove.kept code.size (by rw [Array.size_push]; exact Nat.lt_succ_self _)]
    exact Array.getElem?_push_size
  -- the body closes what it opens, so the loop's own start is innermost again at its end
  obtain rfl : opened' = ⟨code.size, start⟩ :: opened := habove.opened_eq hbody
  refine ⟨(code'.modify code.size fun opcode => { opcode with action := .beginLoop code'.size }).push
    ⟨pending', .endLoop code.size⟩, ?_, ?_, ?_, ?_⟩
  · refine addAll_append_eq_ok.mpr ⟨_, addAll_cons_eq_ok.mpr ⟨_, rfl, hmiddle⟩, ?_⟩
    rw [addAll_singleton]
    rfl
  · rw [Array.size_push, Array.size_modify, hsize]
  · rw [Array.getElem?_push, Array.size_modify, if_neg (by omega), Array.getElem?_modify,
      if_pos rfl, hstart, ← hsize]
    rfl
  · rw [Array.getElem?_push, Array.size_modify, if_pos hsize.symm]
    exact congrArg (fun m => some (Opcode.mk m _)) hpending

/-- Where a program is built from, no loop is open. -/
theorem inRange_empty : empty.InRange := fun _ h => absurd h List.not_mem_nil

end Assembly

/-! ## The opcodes of a program -/

namespace Program

theorem ofPhrases_eq_ok_iff {phrases : List Phrase} {p : Program} :
    ofPhrases phrases = .ok p ↔
      ∃ a, Assembly.empty.addAll phrases = .ok a ∧ a.opened = [] ∧ a.code = p.code := by
  show (Assembly.empty.addAll phrases >>= fun a => a.finish) = .ok p ↔ _
  cases h : Assembly.empty.addAll phrases with
  | error e => exact ⟨fun h' => (by cases h'), fun ⟨a, h', _⟩ => by cases h'⟩
  | ok a =>
    obtain ⟨pending, opened, code⟩ := a
    constructor
    · intro h'
      cases opened with
      | nil =>
        cases h'
        exact ⟨_, rfl, rfl, rfl⟩
      | cons start opened => cases h'
    · rintro ⟨a', ha', hopened, hcode⟩
      cases ha'
      cases hopened
      cases p
      cases hcode
      rfl

/-- A program has one opcode for every phrase that is no move. -/
theorem size_of_ofPhrases {phrases : List Phrase} {p : Program} (h : ofPhrases phrases = .ok p) :
    p.size = opcodeCount phrases := by
  obtain ⟨a, hadd, -, hcode⟩ := ofPhrases_eq_ok_iff.mp h
  rw [size, ← hcode, (Assembly.addAll_size hadd).1]
  exact Nat.zero_add _

/-- The opcode of an effect, at its place and with the moves in front of it. -/
theorem get?_effect {front behind : List Phrase} {effect : Effect} {p : Program}
    (h : ofPhrases (front ++ .perform effect :: behind) = .ok p) :
    p.get? (opcodeCount front) = some ⟨carried front, .perform effect⟩ := by
  obtain ⟨a, hadd, -, hcode⟩ := ofPhrases_eq_ok_iff.mp h
  obtain ⟨a₁, hfront, hadd⟩ := Assembly.addAll_append_eq_ok.mp hadd
  obtain ⟨a₂, heffect, hbehind⟩ := Assembly.addAll_cons_eq_ok.mp hadd
  obtain ⟨hsize, hpending⟩ := Assembly.addAll_size hfront
  have hrange := Assembly.addAll_inRange Assembly.inRange_empty hfront
  obtain ⟨pending, opened, code⟩ := a₁
  have hsize : code.size = opcodeCount front := hsize.trans (Nat.zero_add _)
  cases heffect
  have hsettled : Assembly.Settled ⟨0, opened, code.push ⟨pending, .perform effect⟩⟩ code.size :=
    ⟨by rw [Array.size_push]; exact Nat.lt_succ_self _,
      fun start hstart => Nat.ne_of_lt (hrange start hstart)⟩
  rw [get?, ← hcode, ← hsize, Assembly.addAll_settled hsettled hbehind]
  show (code.push _)[code.size]? = _
  rw [Array.getElem?_push_size]
  exact congrArg (fun m => some (Opcode.mk m _)) hpending

/-- The opcodes of the two ends of a loop, each at its place, with the moves in front of it, and
with the other as its partner. -/
theorem get?_loop {front body behind : List Phrase} {start stop : Nat} {p : Program}
    (h : ofPhrases (front ++ .beginLoop start :: (body ++ .endLoop stop :: behind)) = .ok p)
    (hbody : Balanced Phrase.bracket? body) :
    p.get? (opcodeCount front) =
        some ⟨carried front, .beginLoop (opcodeCount front + 1 + opcodeCount body)⟩ ∧
      p.get? (opcodeCount front + 1 + opcodeCount body) =
        some ⟨carried body, .endLoop (opcodeCount front)⟩ := by
  have hsplit : Phrase.beginLoop start :: (body ++ .endLoop stop :: behind) =
      (.beginLoop start :: body ++ [.endLoop stop]) ++ behind := by
    rw [List.append_assoc, List.cons_append, List.singleton_append]
  rw [hsplit] at h
  obtain ⟨a, hadd, -, hcode⟩ := ofPhrases_eq_ok_iff.mp h
  obtain ⟨a₁, hfront, hadd⟩ := Assembly.addAll_append_eq_ok.mp hadd
  obtain ⟨a₂, hloop, hbehind⟩ := Assembly.addAll_append_eq_ok.mp hadd
  obtain ⟨hsize, hpending⟩ := Assembly.addAll_size hfront
  have hrange := Assembly.addAll_inRange Assembly.inRange_empty hfront
  have hsize : a₁.code.size = opcodeCount front := hsize.trans (Nat.zero_add _)
  obtain ⟨code, hloop', hsize', hstart, hstop⟩ := a₁.addAll_loop hbody start stop
  cases hloop.symm.trans hloop'
  -- the loops still open started in front of this one, so both of its ends are settled
  have hsettled : ∀ index, a₁.code.size ≤ index → index < code.size →
      p.get? index = code[index]? := by
    intro index hle hlt
    have hsettled : Assembly.Settled ⟨0, a₁.opened, code⟩ index :=
      ⟨hlt, fun start hstart => Nat.ne_of_lt (Nat.lt_of_lt_of_le (hrange start hstart) hle)⟩
    rw [get?, ← hcode, Assembly.addAll_settled hsettled hbehind]
  rw [← hsize]
  refine ⟨?_, ?_⟩
  · rw [hsettled _ (Nat.le_refl _) (by omega), hstart, hpending]
    rfl
  · rw [hsettled _ (by omega) (by omega), hstop]

/-! ## Which phrases are a program -/

/-- Balanced phrases are a program. -/
theorem ofPhrases_of_balanced {phrases : List Phrase} (h : Balanced Phrase.bracket? phrases) :
    ∃ p, ofPhrases phrases = .ok p := by
  obtain ⟨a, hadd, habove⟩ := Assembly.addAll_of_neverBelow .empty h.neverBelow
  exact ⟨⟨a.code⟩, ofPhrases_eq_ok_iff.mpr ⟨a, hadd, habove.opened_eq h, rfl⟩⟩

/-- The first end of a loop that has no start is reported, whatever follows it. -/
theorem ofPhrases_of_surplusAt {phrases front : List Phrase} {offset : Nat}
    (h : SurplusAt Phrase.bracket? phrases front (.endLoop offset)) :
    ofPhrases phrases = .error ⟨.closing, offset⟩ := by
  obtain ⟨-, hfront, behind, rfl⟩ := h
  obtain ⟨⟨pending, opened, code⟩, hadd, habove⟩ :=
    Assembly.addAll_of_neverBelow .empty hfront.neverBelow
  obtain rfl : opened = [] := habove.opened_eq hfront
  show (Assembly.empty.addAll _ >>= fun a => a.finish) = _
  rw [Assembly.addAll_append, hadd]
  show (Assembly.addAll _ _ >>= fun a => a.finish) = _
  rw [Assembly.addAll_cons]
  rfl

/-- If nothing is closed too often, the last start of a loop that has no end is reported. -/
theorem ofPhrases_of_openAt {phrases front : List Phrase} {offset : Nat}
    (h : OpenAt Phrase.bracket? phrases front (.beginLoop offset)) :
    ofPhrases phrases = .error ⟨.opening, offset⟩ := by
  obtain ⟨-, hnever, behind, hbehind, rfl⟩ := h
  obtain ⟨⟨pending, opened, code⟩, hfront, -⟩ :=
    Assembly.addAll_of_neverBelow .empty hnever.left
  obtain ⟨a, hadd, habove⟩ := Assembly.addAll_of_neverBelow
    ⟨0, ⟨code.size, offset⟩ :: opened, code.push ⟨pending, .beginLoop 0⟩⟩ hbehind.neverBelow
  show (Assembly.empty.addAll _ >>= fun a => a.finish) = _
  rw [Assembly.addAll_append_eq_ok.mpr ⟨_, hfront, Assembly.addAll_cons_eq_ok.mpr ⟨_, rfl, hadd⟩⟩]
  show a.finish = _
  rw [Assembly.finish, habove.opened_eq hbehind]

/-- Only balanced phrases are a program. -/
theorem balanced_of_ofPhrases {phrases : List Phrase} {p : Program}
    (h : ofPhrases phrases = .ok p) : Balanced Phrase.bracket? phrases := by
  rcases balanced_or_surplus_or_open Phrase.bracket? phrases with
    hbalanced | ⟨front, x, hx⟩ | ⟨front, x, hx⟩
  · exact hbalanced
  · obtain ⟨offset, rfl⟩ := Phrase.exists_endLoop hx.1
    rw [ofPhrases_of_surplusAt hx] at h
    cases h
  · obtain ⟨offset, rfl⟩ := Phrase.exists_beginLoop hx.1
    rw [ofPhrases_of_openAt hx] at h
    cases h

/-- Phrases that can be assembled never close more than they open. -/
theorem neverBelow_of_addAll {phrases : List Phrase} {a : Assembly}
    (h : Assembly.empty.addAll phrases = .ok a) : NeverBelow Phrase.bracket? phrases := by
  have hfinish : ofPhrases phrases = a.finish := by
    show (Assembly.empty.addAll phrases >>= fun a => a.finish) = _
    rw [h]
    rfl
  rcases balanced_or_surplus_or_open Phrase.bracket? phrases with
    hbalanced | ⟨front, x, hx⟩ | ⟨front, x, hx⟩
  · exact hbalanced.neverBelow
  · obtain ⟨offset, rfl⟩ := Phrase.exists_endLoop hx.1
    rw [ofPhrases_of_surplusAt hx, Assembly.finish] at hfinish
    split at hfinish <;> cases hfinish
  · exact hx.2.1

end Program

end Brainfuck
