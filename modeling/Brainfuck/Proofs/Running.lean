import Brainfuck.Plain
import Brainfuck.Proofs.Spelling

/-!
# Runs of the plain interpreter

`Reaches io commands n s s'` says that `n` commands lead from one state to another. Runs are put
together from shorter ones (`Reaches.trans`), and a run that has stopped stays stopped
(`after_of_le`).

The brackets of a loop find each other by counting. Around a balanced body they do
(`Loop.of_balanced`), and then both brackets do the same: the command behind the loop is next if the
cell is zero, the first command of its body if not (`Loop.step_beginLoop`, `Loop.step_endLoop`).
-/

namespace Brainfuck.Plain

/-- No further command will be executed. -/
def Result.Stopped {σ : Type} (r : Result σ) : Prop := ∀ s, r ≠ .next s

theorem Result.Stopped.offTape {σ : Type} (s : State σ) : (Result.offTape s).Stopped := by
  intro s' h
  cases h

/-- Executing `n` commands leads from one state to the other. -/
def Reaches {σ : Type} (io : Console σ) (commands : List Command) (n : Nat) (s s' : State σ) :
    Prop :=
  after io commands n s = .next s'

section Runs

variable {σ : Type} {io : Console σ} {commands : List Command} {s s' s'' : State σ} {m n : Nat}

theorem after_succ_of_next (h : step io commands s = .next s') (n : Nat) :
    after io commands (n + 1) s = after io commands n s' := by
  rw [after, h]

theorem after_succ_of_stopped {r : Result σ} (h : step io commands s = r) (hr : r.Stopped)
    (n : Nat) : after io commands (n + 1) s = r := by
  rw [after, h]
  cases r with
  | next s' => exact absurd rfl (hr s')
  | _ => rfl

theorem Reaches.refl (s : State σ) : Reaches io commands 0 s s := rfl

theorem Reaches.one (h : step io commands s = .next s') : Reaches io commands 1 s s' :=
  after_succ_of_next h 0

theorem Reaches.after_add (h : Reaches io commands m s s') (n : Nat) :
    after io commands (m + n) s = after io commands n s' := by
  induction m generalizing s with
  | zero =>
    cases h
    rw [Nat.zero_add]
  | succ m ih =>
    unfold Reaches at h
    rw [Nat.succ_add]
    cases hstep : step io commands s with
    | next s₁ =>
      rw [after_succ_of_next hstep] at h ⊢
      exact ih h
    | _ =>
      rw [after, hstep] at h
      cases h

theorem Reaches.trans (h : Reaches io commands m s s') (h' : Reaches io commands n s' s'') :
    Reaches io commands (m + n) s s'' :=
  (h.after_add n).trans h'

/-- One more command behind a run. -/
theorem Reaches.step (h : Reaches io commands m s s') (hstep : step io commands s' = .next s'') :
    Reaches io commands (m + 1) s s'' :=
  h.trans (.one hstep)

/-- One more command in front of a run. -/
theorem Reaches.head (hstep : Plain.step io commands s = .next s')
    (h : Reaches io commands n s' s'') : Reaches io commands (n + 1) s s'' :=
  (after_succ_of_next hstep n).trans h

/-- What has stopped stays stopped. -/
theorem after_of_le {r : Result σ} (h : after io commands n s = r) (hr : r.Stopped) (hle : n ≤ m) :
    after io commands m s = r := by
  induction n generalizing s m with
  | zero => exact absurd h.symm (hr s)
  | succ n ih =>
    obtain ⟨m, rfl⟩ : ∃ k, m = k + 1 := ⟨m - 1, by omega⟩
    cases hstep : Plain.step io commands s with
    | next s' =>
      rw [after_succ_of_next hstep] at h ⊢
      exact ih h (Nat.le_of_succ_le_succ hle)
    | _ =>
      rw [after, hstep] at h ⊢
      exact h

/-- A run stops in one way only. -/
theorem stopped_unique {r r' : Result σ} (h : after io commands m s = r)
    (h' : after io commands n s = r') (hr : r.Stopped) (hr' : r'.Stopped) : r = r' := by
  rcases Nat.le_total m n with hle | hle
  · exact (after_of_le h hr hle).symm.trans h'
  · exact h.symm.trans (after_of_le h' hr' hle)

/-- A run that has stopped goes no further. -/
theorem Reaches.lt_of_stopped {r : Result σ} (h : Reaches io commands m s s')
    (h' : after io commands n s = r) (hr : r.Stopped) : m < n := by
  rcases Nat.lt_or_ge m n with hlt | hge
  · exact hlt
  · exact absurd ((after_of_le h' hr hge).symm.trans h) (hr s')

end Runs

/-! ## Parts of a text -/

/-- The commands from `position` on start with `part`. -/
def Segment (commands : List Command) (position : Nat) (part : List Command) : Prop :=
  part <+: commands.drop position

namespace Segment

variable {commands part more : List Command} {position : Nat} {c : Command}

theorem of_append (front part behind : List Command) :
    Segment (front ++ (part ++ behind)) front.length part := by
  unfold Segment
  rw [List.drop_left]
  exact List.prefix_append part behind

theorem head (h : Segment commands position (c :: part)) : commands[position]? = some c := by
  obtain ⟨rest, hrest⟩ := h
  have hfirst : (commands.drop position)[0]? = commands[position + 0]? := List.getElem?_drop
  rw [← hrest] at hfirst
  exact hfirst.symm

theorem left (h : Segment commands position (part ++ more)) : Segment commands position part :=
  (List.prefix_append part more).trans h

theorem right (h : Segment commands position (part ++ more)) :
    Segment commands (position + part.length) more := by
  obtain ⟨rest, hrest⟩ := h
  refine ⟨rest, ?_⟩
  rw [← List.drop_drop, ← hrest, List.append_assoc, List.drop_left]

theorem tail (h : Segment commands position (c :: part)) :
    Segment commands (position + 1) part := by
  have h : Segment commands position ([c] ++ part) := h
  exact h.right

end Segment

/-! ## Single commands -/

/-- The command uses the cell under the cursor. -/
def usesCell : Command → Bool
  | .move _ => false
  | _ => true

section Steps

variable {σ : Type} (io : Console σ) {commands : List Command} {s : State σ} {c : Command}
  {value : UInt8}

theorem step_move {d : Direction} (h : commands[s.position]? = some (.move d)) :
    step io commands s = .next (s.move d) := by
  unfold step
  rw [h]

/-- A command that is no move is executed if its cell is on the tape. -/
theorem step_of_cell (h : commands[s.position]? = some c) (hc : usesCell c = true)
    (hcell : s.cell? = some value) : step io commands s = execute io commands c value s.touch := by
  unfold step
  rw [h]
  cases c with
  | move d => cases hc
  | _ =>
    dsimp only
    rw [hcell]

theorem step_of_offTape (h : commands[s.position]? = some c) (hc : usesCell c = true)
    (hcell : s.cell? = none) : step io commands s = .offTape s := by
  unfold step
  rw [h]
  cases c with
  | move d => cases hc
  | _ =>
    dsimp only
    rw [hcell]

theorem step_finished (h : commands.length ≤ s.position) : step io commands s = .finished s := by
  unfold step
  rw [List.getElem?_eq_none h]

variable {io} {s' : State σ}

/-- A command whose cell is on the tape does not leave the tape. -/
theorem execute_ne_offTape : execute io commands c value s ≠ .offTape s' := by
  intro h
  have hjump : ∀ partner, jump s partner ≠ .offTape s' := by
    intro partner
    cases partner <;> nofun
  cases c with
  | move | increment | decrement => cases h
  | beginLoop | endLoop =>
    unfold execute at h
    dsimp only at h
    split at h
    all_goals first | cases h | exact hjump _ h
  | read | write =>
    unfold execute at h
    dsimp only at h
    repeat' split at h
    all_goals cases h

/-- The tape is left only at a command without a cell, and everything stays as it is. -/
theorem step_eq_offTape (h : step io commands s = .offTape s') : s' = s ∧ s.cell? = none := by
  unfold step at h
  split at h
  next => cases h
  next => cases h
  next =>
    split at h
    next hcell =>
      cases h
      exact ⟨rfl, hcell⟩
    next => exact absurd h execute_ne_offTape

/-- Where the tape is left, there is no cell. -/
theorem cell?_of_offTape {n : Nat} (h : after io commands n s = .offTape s') :
    s'.cell? = none := by
  induction n generalizing s with
  | zero => cases h
  | succ n ih =>
    unfold after at h
    split at h
    next s₁ hstep => exact ih h
    next =>
      obtain ⟨rfl, hcell⟩ := step_eq_offTape h
      exact hcell

end Steps

/-! ## Partners of brackets -/

/-- The bracket that the command is for a search in which `deeper` opens and `shallower` closes. -/
def searched (deeper shallower : Command) (c : Command) : Option Bracket :=
  if c = shallower then some .closing else if c = deeper then some .opening else none

/-- The search goes on behind a command that leaves the nesting at zero or above. -/
theorem unnest?_cons {deeper shallower c : Command} {nesting : Nat}
    (h : 0 ≤ (nesting : Int) + level (searched deeper shallower c)) (rest : List Command) :
    unnest? deeper shallower nesting (c :: rest) =
      (unnest? deeper shallower (nesting + level (searched deeper shallower c)).toNat rest).map
        (· + 1) := by
  unfold searched at h ⊢
  rw [unnest?.eq_def]
  dsimp only
  by_cases hshallower : c = shallower
  · rw [if_pos hshallower] at h ⊢
    cases nesting with
    | zero => exact absurd h (by decide)
    | succ nesting =>
      have hless : ((nesting + 1 : Nat) + level (some .closing)).toNat = nesting := by
        show ((nesting + 1 : Nat) + -1 : Int).toNat = nesting
        omega
      rw [if_pos hshallower, hless]
  · rw [if_neg hshallower, if_neg hshallower]
    by_cases hdeeper : c = deeper
    · rw [if_pos hdeeper, if_pos hdeeper]
      rfl
    · rw [if_neg hdeeper, if_neg hdeeper]
      show _ = Option.map _ (unnest? deeper shallower ((nesting : Int) + 0).toNat rest)
      rw [Int.add_zero, Int.toNat_natCast]

/-- The search passes over a row that never comes to what is looked for. -/
theorem unnest?_append {deeper shallower : Command} {row : List Command} {nesting : Nat}
    (h : ∀ part, part <+: row → 0 ≤ (nesting : Int) + depth (searched deeper shallower) part)
    (rest : List Command) :
    unnest? deeper shallower nesting (row ++ rest) =
      (unnest? deeper shallower (nesting + depth (searched deeper shallower) row).toNat rest).map
        (· + row.length) := by
  induction row generalizing nesting with
  | nil =>
    rw [depth_nil, Int.add_zero, Int.toNat_natCast]
    exact Option.map_id'.symm
  | cons c row ih =>
    have hfirst := h [c] (List.cons_prefix_cons.mpr ⟨rfl, List.nil_prefix⟩)
    rw [depth_singleton] at hfirst
    -- the nesting behind the first command is what the rest of the row starts from
    obtain ⟨inner, hinner⟩ := Int.eq_ofNat_of_zero_le hfirst
    have hlater : ∀ part, part <+: row →
        0 ≤ (inner : Int) + depth (searched deeper shallower) part := by
      intro part hpart
      have hwhole := h (c :: part) (List.cons_prefix_cons.mpr ⟨rfl, hpart⟩)
      rw [depth_cons] at hwhole
      omega
    have hsum : (nesting : Int) + depth (searched deeper shallower) (c :: row) =
        inner + depth (searched deeper shallower) row := by
      rw [depth_cons]
      omega
    rw [List.cons_append, unnest?_cons hfirst, hinner, Int.toNat_natCast, ih hlater, hsum,
      Option.map_map]
    rfl

/-- Behind a balanced row the search ends at the first bracket that comes. -/
theorem unnest?_of_balanced {deeper shallower : Command} {row : List Command}
    (h : Balanced (searched deeper shallower) row) (rest : List Command) :
    unnest? deeper shallower 0 (row ++ shallower :: rest) = some row.length := by
  have hnever : ∀ part, part <+: row →
      0 ≤ ((0 : Nat) : Int) + depth (searched deeper shallower) part := by
    intro part hpart
    have := h.neverBelow part hpart
    omega
  rw [unnest?_append hnever, h.depth_eq_zero]
  show Option.map _ (unnest? deeper shallower 0 (shallower :: rest)) = _
  rw [unnest?, if_pos rfl]
  exact congrArg some (Nat.zero_add row.length)

theorem searched_end : searched .beginLoop .endLoop = Command.bracket? := by
  funext c
  cases c <;> rfl

/-- Seen from behind, every bracket is the other one. -/
theorem depth_searched_start (row : List Command) :
    depth (searched .endLoop .beginLoop) row.reverse = -depth Command.bracket? row := by
  have hlevel : ∀ c : Command,
      level (searched .endLoop .beginLoop c) = -level c.bracket? := by
    intro c
    cases c <;> rfl
  induction row with
  | nil => rfl
  | cons c row ih =>
    rw [List.reverse_cons, depth_append, depth_singleton, depth_cons, ih, hlevel]
    omega

theorem balanced_searched_start {row : List Command} (h : Balanced Command.bracket? row) :
    Balanced (searched .endLoop .beginLoop) row.reverse := by
  constructor
  · intro part hpart
    -- a front part from behind is a back part, and what is in front of it has a depth of its own
    obtain ⟨front, hfront⟩ := List.reverse_suffix.mpr hpart
    rw [List.reverse_reverse] at hfront
    have hsum := h.depth_eq_zero
    have hnever := h.neverBelow front ⟨part.reverse, hfront⟩
    rw [← hfront, depth_append] at hsum
    have hpart := depth_searched_start part.reverse
    rw [List.reverse_reverse] at hpart
    omega
  · rw [depth_searched_start, h.depth_eq_zero]
    rfl

/-- The brackets at `start` and `stop` are partners. -/
structure Loop (commands : List Command) (start stop : Nat) : Prop where
  beginLoop : commands[start]? = some .beginLoop
  endLoop : commands[stop]? = some .endLoop
  loopEnd : loopEnd? commands start = some stop
  loopStart : loopStart? commands stop = some start

/-- **Brackets around a balanced body are partners.** -/
theorem Loop.of_balanced {front body : List Command} (h : Balanced Command.bracket? body)
    (behind : List Command) :
    Loop (front ++ .beginLoop :: (body ++ .endLoop :: behind)) front.length
      (front.length + 1 + body.length) := by
  have hassoc : front ++ .beginLoop :: (body ++ .endLoop :: behind) =
      (front ++ .beginLoop :: body) ++ .endLoop :: behind := by
    rw [List.append_assoc, List.cons_append]
  have hlength : (front ++ .beginLoop :: body).length = front.length + 1 + body.length := by
    rw [List.length_append, List.length_cons]
    omega
  constructor
  · rw [List.getElem?_append_right (Nat.le_refl _), Nat.sub_self]
    rfl
  · rw [hassoc, ← hlength, List.getElem?_append_right (Nat.le_refl _), Nat.sub_self]
    rfl
  · unfold loopEnd?
    rw [← List.drop_drop, List.drop_left, List.drop_succ_cons, List.drop_zero,
      unnest?_of_balanced (searched_end ▸ h)]
    rfl
  · have hfound := unnest?_of_balanced (balanced_searched_start h) front.reverse
    unfold loopStart?
    rw [hassoc, ← hlength, List.take_left, List.reverse_append, List.reverse_cons,
      List.append_assoc, List.singleton_append, hfound, Option.map_some, List.length_reverse,
      hlength]
    congr 1
    omega

section Loops

variable {σ : Type} (io : Console σ) {commands : List Command} {s : State σ} {start stop : Nat}
  {value : UInt8}

/-- Where either bracket of a loop leads. -/
def bracketTarget (start stop : Nat) (value : UInt8) : Nat :=
  if value = 0 then stop + 1 else start + 1

theorem Loop.step_beginLoop (h : Loop commands start stop) (hposition : s.position = start)
    (hcell : s.cell? = some value) :
    step io commands s = .next (s.touch.goTo (bracketTarget start stop value)) := by
  subst hposition
  rw [step_of_cell io h.beginLoop rfl hcell]
  show (if value = 0 then jump s.touch (loopEnd? commands s.position) else _) = _
  rw [h.loopEnd, bracketTarget]
  by_cases hvalue : value = 0
  · rw [if_pos hvalue, if_pos hvalue]
    rfl
  · rw [if_neg hvalue, if_neg hvalue]
    rfl

theorem Loop.step_endLoop (h : Loop commands start stop) (hposition : s.position = stop)
    (hcell : s.cell? = some value) :
    step io commands s = .next (s.touch.goTo (bracketTarget start stop value)) := by
  subst hposition
  rw [step_of_cell io h.endLoop rfl hcell]
  show (if value = 0 then _ else jump s.touch (loopStart? commands s.position)) = _
  rw [h.loopStart, bracketTarget]
  by_cases hvalue : value = 0
  · rw [if_pos hvalue, if_pos hvalue]
    rfl
  · rw [if_neg hvalue, if_neg hvalue]
    rfl

end Loops

end Brainfuck.Plain
