import Brainfuck.Proofs.Extent

/-!
# How great the numbers of an assembly get

No number in the opcodes of a text is greater than the number of commands they have been made of
(`Assembly.Bounded`), and every loop that is still open has its start among them
(`Assembly.Opens`). Each phrase that is assembled keeps both (`Assembly.Bounded.add`,
`Assembly.Opens.add`). How great the numbers of a phrase itself are is told by how it is spelled
(`Phrase.Spelled.bounded`).
-/

namespace Brainfuck

/-- The numbers of the effect are no greater than `bound`. -/
def Effect.Bounded (bound : Nat) : Effect → Prop
  | add count | sub count => count ≤ bound
  | copy targets => ∀ t ∈ targets, t.offset.natAbs ≤ bound ∧ t.factor ≤ bound
  | clear | scan _ | read | write => True

/-- The numbers of what the action does are no greater than `bound`. The indices of loops are not
among them. -/
def Action.Bounded (bound : Nat) : Action → Prop
  | perform effect => effect.Bounded bound
  | beginLoop _ | endLoop _ => True

/-- The numbers of the opcode are no greater than `bound`. -/
structure Opcode.Bounded (bound : Nat) (o : Opcode) : Prop where
  move_le : o.move.natAbs ≤ bound
  action : o.action.Bounded bound

/-- There are no more than `bound` opcodes, and no number is greater. -/
structure Assembly.Bounded (bound : Nat) (a : Assembly) : Prop where
  size_le : a.code.size ≤ bound
  pending_le : a.pending.natAbs ≤ bound
  opcodes : ∀ o ∈ a.code, o.Bounded bound

variable {bound bound' : Nat}

theorem Effect.Bounded.mono {e : Effect} (h : e.Bounded bound) (hle : bound ≤ bound') :
    e.Bounded bound' := by
  cases e with
  | add count => exact Nat.le_trans h hle
  | sub count => exact Nat.le_trans h hle
  | copy targets =>
    intro t ht
    exact ⟨Nat.le_trans (h t ht).1 hle, Nat.le_trans (h t ht).2 hle⟩
  | _ => exact trivial

theorem Opcode.Bounded.mono {o : Opcode} (h : o.Bounded bound) (hle : bound ≤ bound') :
    o.Bounded bound' := by
  obtain ⟨move, action⟩ := o
  refine ⟨Nat.le_trans h.move_le hle, ?_⟩
  cases action with
  | perform effect => exact Effect.Bounded.mono h.action hle
  | _ => exact trivial

/-- The numbers of an effect are no greater than the row of its commands is long. -/
theorem Phrase.Spelled.bounded {effect : Effect} {commands : List Command}
    (h : (Phrase.perform effect).Spelled commands) : effect.Bounded commands.length := by
  cases h with
  | add more =>
    rw [List.length_replicate]
    exact Nat.le_refl _
  | sub more =>
    rw [List.length_replicate]
    exact Nat.le_refl _
  | @copy d first rest hfirst hrest hadds =>
    intro t ht
    refine ⟨(Phrase.Spelled.copy hfirst hrest hadds).natAbs_offset_le ht, ?_⟩
    have := Idiom.factor_le_of_mem_targetsFrom (Idiom.forall_outbound hfirst hrest)
      (Idiom.mem_targets_iff.mp ht)
    rw [Idiom.length_copyCommands]
    omega
  | _ => exact trivial

namespace Assembly

variable {a a' : Assembly}

/-- The next opcode carries what is pending. -/
theorem Bounded.push {code : Array Opcode} {opened : List OpenLoop} {action : Action}
    (h : a.Bounded bound) (hlt : bound < bound') (hsize : code.size = a.code.size)
    (hcode : ∀ o ∈ code, o.Bounded bound') (haction : action.Bounded bound') :
    Bounded bound' ⟨0, opened, code.push ⟨a.pending, action⟩⟩ := by
  refine ⟨?_, Nat.zero_le _, ?_⟩
  · show (code.push _).size ≤ _
    have := h.size_le
    rw [Array.size_push, hsize]
    omega
  · intro o ho
    rcases Array.mem_push.mp ho with ho | ho
    · exact hcode o ho
    · rw [ho]
      exact ⟨Nat.le_trans h.pending_le (Nat.le_of_lt hlt), haction⟩

/-- An opcode whose partner is filled in keeps its move. -/
theorem bounded_of_mem_modify {code : Array Opcode} {index partner : Nat}
    (h : ∀ o ∈ code, o.Bounded bound) {o : Opcode}
    (ho : o ∈ code.modify index fun opcode => { opcode with action := .beginLoop partner }) :
    o.Bounded bound := by
  obtain ⟨i, hget⟩ := Array.mem_iff_getElem?.mp ho
  rw [Array.getElem?_modify] at hget
  split at hget
  · obtain ⟨before, hbefore, rfl⟩ := Option.map_eq_some_iff.mp hget
    exact ⟨(h before (Array.mem_iff_getElem?.mpr ⟨i, hbefore⟩)).move_le, trivial⟩
  · exact h o (Array.mem_iff_getElem?.mpr ⟨i, hget⟩)

/-- Bounds grow by the number of commands that the next phrase takes up. -/
theorem Bounded.add {phrase : Phrase} {count : Nat} (h : a.Bounded bound) (hpos : 0 < count)
    (heffect : ∀ effect, phrase = .perform effect → effect.Bounded count)
    (hadd : a.add phrase = .ok a') : a'.Bounded (bound + count) := by
  have hlt : bound < bound + count := Nat.lt_add_of_pos_right hpos
  have hold : ∀ o ∈ a.code, o.Bounded (bound + count) :=
    fun o ho => (h.opcodes o ho).mono (Nat.le_of_lt hlt)
  obtain ⟨pending, opened, code⟩ := a
  cases phrase with
  | move d =>
    cases hadd
    refine ⟨Nat.le_trans h.size_le (Nat.le_of_lt hlt), ?_, hold⟩
    have := h.pending_le
    show (pending + d.unit).natAbs ≤ _
    cases d <;> simp only [Direction.unit] at * <;> omega
  | perform effect =>
    cases hadd
    exact h.push hlt rfl hold ((heffect effect rfl).mono (Nat.le_add_left ..))
  | beginLoop offset =>
    cases hadd
    exact h.push hlt rfl hold trivial
  | endLoop offset =>
    cases opened with
    | nil => cases hadd
    | cons start opened =>
      cases hadd
      exact h.push hlt Array.size_modify (fun o ho => bounded_of_mem_modify hold ho) trivial

/-- The opcode at the index is the start of a loop. -/
def BeginsAt (code : Array Opcode) (index : Nat) : Prop :=
  ∃ move partner, code[index]? = some ⟨move, .beginLoop partner⟩

/-- A start that is there stays there when an opcode is put behind all. -/
theorem BeginsAt.push {code : Array Opcode} {index : Nat} (h : BeginsAt code index)
    (opcode : Opcode) : BeginsAt (code.push opcode) index := by
  obtain ⟨move, partner, hget⟩ := h
  obtain ⟨hlt, -⟩ := Array.getElem?_eq_some_iff.mp hget
  refine ⟨move, partner, ?_⟩
  rw [Array.getElem?_push, if_neg (Nat.ne_of_lt hlt), hget]

/-- Every open loop has its start among the opcodes. -/
def Opens (a : Assembly) : Prop := ∀ start ∈ a.opened, BeginsAt a.code start.index

theorem Opens.add {phrase : Phrase} (h : a.Opens) (hadd : a.add phrase = .ok a') : a'.Opens := by
  obtain ⟨pending, opened, code⟩ := a
  cases phrase with
  | move d =>
    cases hadd
    exact h
  | perform effect =>
    cases hadd
    intro start hstart
    exact (h start hstart).push _
  | beginLoop offset =>
    cases hadd
    intro start hstart
    rcases List.mem_cons.mp hstart with hnew | hstart
    · rw [hnew]
      exact ⟨pending, 0, Array.getElem?_push_size⟩
    · exact (h start hstart).push _
  | endLoop offset =>
    cases opened with
    | nil => cases hadd
    | cons innermost opened =>
      cases hadd
      intro start hstart
      refine BeginsAt.push ?_ _
      obtain ⟨move, partner, hget⟩ := h start (List.mem_cons_of_mem _ hstart)
      unfold BeginsAt
      rw [Array.getElem?_modify, hget]
      split
      · exact ⟨move, code.size, rfl⟩
      · exact ⟨move, partner, rfl⟩

end Assembly

end Brainfuck
