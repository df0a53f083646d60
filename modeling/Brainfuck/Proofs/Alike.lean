import Brainfuck.Proofs.Slices

/-!
# Consoles that cannot be told apart

A machine does not know what console it is at. It only hears the answers to its reads, and of these
it does not tell the byte zero from no byte (`heard`), and it hears whether its writes went well. Two
consoles are alike (`Console.Alike`) if, however they are used, the machine hears the same from both.
Then a dispatch does the same at both (`Session.dispatch_alike`), and so does a whole run
(`Session.run_alike`) and any sequence of calls (`Session.afterCalls_alike`).

What a run writes is told by the machine alone: it is what the dispatches offer that do not fail
(`Session.writtenBy`). A console that takes every byte (`Console.Records`) has taken just these when
the run ends, whether it completes, fails, or is cut short (`Session.records_of_run`).
-/

namespace Brainfuck

/-- What a machine hears when it is given a byte, or none. -/
def heard (byte : Option UInt8) : Option UInt8 := byte.filter (· ≠ 0)

theorem Machine.receive_heard (m : Machine) (byte : Option UInt8) :
    m.receive (heard byte) = m.receive byte := by
  unfold heard
  cases byte with
  | none => rfl
  | some value =>
    by_cases hvalue : value = 0
    · subst hvalue
      rfl
    · simp [Option.filter, hvalue]

/-- Two consoles whose states are related by `R`: what the machine hears from both is the same, and
their states stay related. -/
structure Console.Alike {σ τ : Type} (io : Console σ) (io' : Console τ) (R : σ → τ → Prop) :
    Prop where
  read : ∀ {device device'}, R device device' →
    (io.read device).1.map heard = (io'.read device').1.map heard ∧
      R (io.read device).2 (io'.read device').2
  write : ∀ {device device'} (byte : UInt8), R device device' →
    (io.write byte device).1 = (io'.write byte device').1 ∧
      R (io.write byte device).2 (io'.write byte device').2

/-- A console that takes every byte. After `bytes` have been written, its state is one of those that
`K bytes` holds of. -/
structure Console.Records {σ : Type} (io : Console σ) (K : List UInt8 → σ → Prop) : Prop where
  read : ∀ {bytes device}, K bytes device → K bytes (io.read device).2
  write : ∀ {bytes device} (byte : UInt8), K bytes device →
    ∃ device', io.write byte device = (.ok (), device') ∧ K (bytes ++ [byte]) device'

/-- The byte that the machine offers in this turn, if it offers one. -/
def Turn.offered : Turn → List UInt8
  | offers byte => [byte]
  | _ => []

/-- The byte that the machine offers when its next opcode is dispatched, if it offers one. -/
def Machine.offered (m : Machine) : List UInt8 := m.turn.1.offered

theorem Machine.offered_of_turn {m m' : Machine} {r : Turn} (h : m.turn = (r, m')) :
    m.offered = r.offered := by
  rw [offered, h]

namespace Session

variable {σ τ : Type} {io : Console σ} {io' : Console τ}

/-! ## Runs at two consoles -/

/-- Two sessions with the same machine, at consoles whose states are related. -/
structure Alike (R : σ → τ → Prop) (s : Session σ) (s' : Session τ) : Prop where
  machine : s.machine = s'.machine
  device : R s.device s'.device

section TwoConsoles

variable {R : σ → τ → Prop} {s : Session σ} {s' : Session τ}

/-- A dispatch does the same at both consoles. -/
theorem dispatch_alike (hio : io.Alike io' R) (h : s.Alike R s') :
    (s.dispatch io).1 = (s'.dispatch io').1 ∧ (s.dispatch io).2.Alike R (s'.dispatch io').2 := by
  obtain ⟨machine, device⟩ := s
  obtain ⟨machine', device'⟩ := s'
  obtain ⟨rfl, hdevice⟩ := h
  rcases hturn : machine.turn with ⟨r, m⟩
  cases r with
  | halted =>
    rw [dispatch, dispatch, hturn]
    exact ⟨rfl, rfl, hdevice⟩
  | moved =>
    rw [dispatch_of_moved hturn, dispatch_of_moved hturn]
    exact ⟨rfl, rfl, hdevice⟩
  | asks =>
    obtain ⟨hanswer, hrelated⟩ := hio.read hdevice
    rcases hread : io.read device with ⟨e | byte, next⟩ <;>
      rcases hread' : io'.read device' with ⟨e' | byte', next'⟩ <;>
      rw [hread, hread'] at hanswer hrelated
    · cases hanswer
      rw [dispatch_of_read_failed hturn hread, dispatch_of_read_failed hturn hread']
      exact ⟨rfl, rfl, hrelated⟩
    · cases hanswer
    · cases hanswer
    · -- the answers may differ, but not in what the machine makes of them
      have hheard : heard byte = heard byte' := Except.ok.inj hanswer
      rw [dispatch_of_read hturn hread, dispatch_of_read hturn hread']
      refine ⟨rfl, ?_, hrelated⟩
      show m.receive byte = m.receive byte'
      rw [← m.receive_heard byte, hheard, m.receive_heard]
  | offers byte =>
    obtain ⟨hanswer, hrelated⟩ := hio.write byte hdevice
    rcases hwrite : io.write byte device with ⟨answer, next⟩
    rcases hwrite' : io'.write byte device' with ⟨answer', next'⟩
    rw [hwrite, hwrite'] at hanswer hrelated
    obtain rfl : answer = answer' := hanswer
    rcases answer with e | ⟨⟩
    · rw [dispatch_of_write_failed hturn hwrite, dispatch_of_write_failed hturn hwrite']
      exact ⟨rfl, rfl, hrelated⟩
    · rw [dispatch_of_write hturn hwrite, dispatch_of_write hturn hwrite']
      exact ⟨rfl, rfl, hrelated⟩
  | failed failure =>
    rw [dispatch_of_failed hturn, dispatch_of_failed hturn]
    exact ⟨rfl, rfl, hdevice⟩

theorem runFrom_alike (hio : io.Alike io' R) (h : s.Alike R s') (expired : Nat → Bool)
    (count budget : Nat) :
    (s.runFrom io expired count budget).1 = (s'.runFrom io' expired count budget).1 ∧
      (s.runFrom io expired count budget).2.Alike R (s'.runFrom io' expired count budget).2 := by
  induction budget generalizing s s' count with
  | zero =>
    rw [runFrom, runFrom, h.machine]
    split
    · exact ⟨rfl, h⟩
    · exact ⟨rfl, h⟩
  | succ budget ih =>
    cases hfinished : s.machine.finished with
    | true =>
      rw [runFrom_of_finished hfinished, runFrom_of_finished (h.machine ▸ hfinished)]
      exact ⟨rfl, h⟩
    | false =>
      obtain ⟨hanswer, hnext⟩ := dispatch_alike hio h
      rcases hdispatch : s.dispatch io with ⟨answer, s₁⟩
      rcases hdispatch' : s'.dispatch io' with ⟨answer', s₁'⟩
      rw [hdispatch, hdispatch'] at hanswer hnext
      obtain rfl : answer = answer' := hanswer
      rcases answer with failure | ⟨⟩
      · rw [runFrom_of_error hdispatch, runFrom_of_error hdispatch']
        exact ⟨rfl, hnext⟩
      · rw [runFrom_of_dispatch hfinished hdispatch,
          runFrom_of_dispatch (h.machine ▸ hfinished) hdispatch']
        split
        · exact ⟨rfl, hnext⟩
        · exact ih hnext (count + 1)

/-- **A run does the same at both consoles.** -/
theorem run_alike (hio : io.Alike io' R) (h : s.Alike R s') (expired : Nat → Bool)
    (budget : Nat) :
    (s.run io expired budget).1 = (s'.run io' expired budget).1 ∧
      (s.run io expired budget).2.Alike R (s'.run io' expired budget).2 :=
  runFrom_alike hio h expired 0 budget

/-- A call does the same at both consoles. -/
theorem call_alike (hio : io.Alike io' R) (h : s.Alike R s') (c : Call) :
    (s.call io c).1 = (s'.call io' c).1 ∧ (s.call io c).2.Alike R (s'.call io' c).2 := by
  cases c with
  | run expired budget => exact run_alike hio h expired budget
  | dispatch =>
    obtain ⟨hanswer, hnext⟩ := dispatch_alike hio h
    rw [call, call]
    rcases hdispatch : s.dispatch io with ⟨answer, s₁⟩
    rcases hdispatch' : s'.dispatch io' with ⟨answer', s₁'⟩
    rw [hdispatch, hdispatch'] at hanswer hnext
    obtain rfl : answer = answer' := hanswer
    rcases answer with failure | ⟨⟩
    · exact ⟨rfl, hnext⟩
    · exact ⟨rfl, hnext⟩

/-- **So does any sequence of calls**, also of calls made after one has failed. -/
theorem afterCalls_alike (hio : io.Alike io' R) (h : s.Alike R s') (calls : List Call) :
    (s.afterCalls io calls).Alike R (s'.afterCalls io' calls) := by
  induction calls generalizing s s' with
  | nil => exact h
  | cons c later ih => exact ih (call_alike hio h c).2

end TwoConsoles

/-! ## What a run writes -/

/-- The bytes that `n` dispatches write, up to the first that fails. -/
def writtenBy (io : Console σ) : Nat → Session σ → List UInt8
  | 0, _ => []
  | n + 1, s =>
    match s.dispatch io with
    | (.ok (), s') => s.machine.offered ++ writtenBy io n s'
    | (.error _, _) => []

variable {s s' : Session σ} {K : List UInt8 → σ → Prop} {bytes : List UInt8}

theorem writtenBy_succ_of_ok (h : s.dispatch io = (.ok (), s')) (n : Nat) :
    s.writtenBy io (n + 1) = s.machine.offered ++ s'.writtenBy io n := by
  rw [writtenBy, h]

/-- What is written is the same at both consoles. -/
theorem writtenBy_alike {R : σ → τ → Prop} (hio : io.Alike io' R) {s : Session σ} {s' : Session τ}
    (h : s.Alike R s') (n : Nat) : s.writtenBy io n = s'.writtenBy io' n := by
  induction n generalizing s s' with
  | zero => rfl
  | succ n ih =>
    obtain ⟨hanswer, hnext⟩ := dispatch_alike hio h
    rcases hdispatch : s.dispatch io with ⟨answer, s₁⟩
    rcases hdispatch' : s'.dispatch io' with ⟨answer', s₁'⟩
    rw [hdispatch, hdispatch'] at hanswer hnext
    obtain rfl : answer = answer' := hanswer
    rcases answer with failure | ⟨⟩
    · rw [writtenBy, writtenBy, hdispatch, hdispatch']
    · rw [writtenBy_succ_of_ok hdispatch, writtenBy_succ_of_ok hdispatch', h.machine, ih hnext]

/-- A dispatch that goes well hands over the byte that it offers, and no other does. -/
theorem records_of_ok (hio : io.Records K) (h : s.dispatch io = (.ok (), s'))
    (hK : K bytes s.device) : K (bytes ++ s.machine.offered) s'.device := by
  obtain ⟨machine, device⟩ := s
  cases dispatch_cases h with
  | halted hturn | moved hturn =>
    have hnothing : machine.offered = [] := Machine.offered_of_turn hturn
    rw [hnothing, List.append_nil]
    exact hK
  | read hturn hread =>
    have hnothing : machine.offered = [] := Machine.offered_of_turn hturn
    have hread' := hio.read hK
    rw [hread] at hread'
    rw [hnothing, List.append_nil]
    exact hread'
  | wrote hturn hwrite =>
    have hbyte : machine.offered = [_] := Machine.offered_of_turn hturn
    rw [hbyte]
    obtain ⟨device', hwrite', hK'⟩ := hio.write _ hK
    cases hwrite.symm.trans hwrite'
    exact hK'

/-- A dispatch that fails hands over nothing. -/
theorem records_of_error {failure : Failure Error} (hio : io.Records K)
    (h : s.dispatch io = (.error failure, s')) (hK : K bytes s.device) : K bytes s'.device := by
  obtain ⟨machine, device⟩ := s
  cases dispatch_cases h with
  | failed => exact hK
  | readFailed hturn hread =>
    have hread' := hio.read hK
    rw [hread] at hread'
    exact hread'
  | writeFailed hturn hwrite =>
    obtain ⟨device', hwrite', -⟩ := hio.write _ hK
    cases hwrite.symm.trans hwrite'

theorem records_of_after {n : Nat} (hio : io.Records K) (h : s.after io n = .ok s')
    (hK : K bytes s.device) : K (bytes ++ s.writtenBy io n) s'.device := by
  induction n generalizing s bytes with
  | zero =>
    cases h
    simpa [writtenBy] using hK
  | succ n ih =>
    obtain ⟨s₁, hdispatch, hafter⟩ := exists_dispatch_of_after h
    rw [writtenBy_succ_of_ok hdispatch, ← List.append_assoc]
    exact ih hafter (records_of_ok hio hdispatch hK)

/-- **What a run hands over** is what the dispatches write that it has made an opcode each, whatever
becomes of it. -/
theorem records_of_run {expired : Nat → Bool} {budget : Nat} {ending : Ending} (hio : io.Records K)
    (h : s.run io expired budget = (ending, s')) (hsteps : s.machine.steps = 0)
    (hK : K bytes s.device) : K (bytes ++ s.writtenBy io s'.machine.steps) s'.device := by
  obtain ⟨s₁, hexecutes, hends⟩ := exists_executes_of_runFrom h
  have hcount := hexecutes.steps
  rw [hsteps, Nat.zero_add] at hcount
  have hK₁ := records_of_after hio hexecutes.after hK
  rw [← hcount] at hK₁
  cases hends with
  | completed | goesOn => exact hK₁
  | failed hdispatch =>
    rw [(unchanged_of_error hdispatch).2]
    exact records_of_error hio hdispatch hK₁

end Session

end Brainfuck
