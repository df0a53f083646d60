import Mathlib
import Brainfuck.Main
import Brainfuck.Proofs.Dispatch

/-!
# What a job does at a terminal is what it leaves behind

A machine that runs on a host is a session: on the host of a console it makes the same dispatches,
the console ends up in the same state, and the run ends alike (`Console.run_host`). The live run has
no budget, but it starts like every run that has one (`Live.run_eq`).

Main result: `Request.carryOutAt_recorded`. A job that is carried out step by step at a terminal
leaves there just what `Request.carryOut` tells.
-/

namespace Brainfuck

/-! ## Runs on a host -/

namespace Host

variable {μ : Type → Type} [Monad μ] [LawfulMonad μ] (host : Host μ) {m : Machine}

omit [LawfulMonad μ] in
theorem round_finished (h : m.finished = true) :
    host.round m = pure (some .completed, m) := if_pos h

theorem run_finished (h : m.finished = true) (budget : Nat) :
    host.run budget m = pure (some .completed, m) := by
  cases budget with
  | zero => rw [run, if_pos h]
  | succ budget => rw [run, round_finished host h, pure_bind]

/-- A run is its first `n` rounds and then, if it has not ended, the rest. -/
theorem run_add (n budget : Nat) (m : Machine) :
    host.run (n + budget) m = host.run n m >>= fun
      | (some ending, m) => pure (some ending, m)
      | (none, m) => host.run budget m := by
  induction n generalizing m with
  | zero =>
    rw [Nat.zero_add]
    by_cases hfinished : m.finished = true
    · rw [run_finished host hfinished, run_finished host hfinished, pure_bind]
    · rw [run, if_neg hfinished, pure_bind]
  | succ n ih =>
    rw [Nat.succ_add, run, run, bind_assoc]
    congr 1
    funext ⟨ending?, m⟩
    cases ending? with
    | some ending =>
      dsimp only
      rw [pure_bind]
    | none => exact ih m

end Host

/-- The live run is a round and then, if it has not ended, the rest. -/
theorem Live.run_succ (host : Host IO) (m : Machine) :
    Live.run host m = host.round m >>= fun
      | (none, m) => Live.run host m
      | (some ending, m) => pure (ending, m) := by
  have hunfold : Live.run host m = repeatM.body _ (Live.run host) m :=
    repeatM_eq_of_monadTail m
  rw [hunfold, repeatM.body, bind_assoc]
  congr 1
  funext ⟨ending?, m⟩
  cases ending? <;> rfl

/-- **The live run starts like every run with a budget.** It goes on where that one stops. -/
theorem Live.run_eq (host : Host IO) (budget : Nat) (m : Machine) :
    Live.run host m = host.run budget m >>= fun
      | (none, m) => Live.run host m
      | (some ending, m) => pure (ending, m) := by
  induction budget generalizing m with
  | zero =>
    rw [Host.run]
    by_cases hfinished : m.finished = true
    · have hlive : Live.run host m = pure (.completed, m) := by
        rw [Live.run_succ, Host.round_finished host hfinished, pure_bind]
      rw [hlive, if_pos hfinished, pure_bind]
    · rw [if_neg hfinished, pure_bind]
  | succ budget ih =>
    rw [Live.run_succ, Host.run, bind_assoc]
    congr 1
    funext ⟨ending?, m⟩
    cases ending? with
    | some ending => exact (pure_bind _ _).symm
    | none => exact ih m

/-! ## The host of a console -/

/-- A step of a computation with a state, where the outcome of the first part is known. -/
theorem stateM_bind_eq {σ α β : Type} {first : StateM σ α} {state state' : σ} {a : α}
    (h : first state = (a, state')) (rest : α → StateM σ β) :
    (first >>= rest) state = rest a state' := by
  show (match first state with | (a, state) => rest a state) = rest a state'
  rw [h]

namespace Console

variable {σ : Type} (io : Console σ) (expired : Nat → Bool) (looks : Nat)

section Reads

variable {device device' : σ}

theorem read_host {answer : Except DeviceError (Option UInt8)}
    (h : io.read device = (answer, device')) :
    (io.host expired).read (device, looks) = (answer, (device', looks)) := by
  show ((io.read device).1, (io.read device).2, looks) = _
  rw [h]

theorem write_host {byte : UInt8} {answer : Except DeviceError Unit}
    (h : io.write byte device = (answer, device')) :
    (io.host expired).write byte (device, looks) = (answer, (device', looks)) := by
  show ((io.write byte device).1, (io.write byte device).2, looks) = _
  rw [h]

end Reads

/-- **A dispatch on the host of a console** is a dispatch at the console. -/
theorem dispatch_host (m : Machine) (device : σ) :
    (io.host expired).dispatch m (device, looks) =
      (((Session.dispatch io ⟨m, device⟩).1, (Session.dispatch io ⟨m, device⟩).2.machine),
        ((Session.dispatch io ⟨m, device⟩).2.device, looks)) := by
  rw [Host.dispatch]
  rcases hturn : m.turn with ⟨turn, m'⟩
  cases turn with
  | halted =>
    rw [Session.dispatch, hturn]
    rfl
  | moved =>
    rw [Session.dispatch_of_moved hturn]
    rfl
  | failed failure =>
    rw [Session.dispatch_of_failed hturn]
    rfl
  | asks =>
    rcases hread : io.read device with ⟨e | byte, device'⟩
    · rw [Session.dispatch_of_read_failed hturn hread]
      exact stateM_bind_eq (io.read_host expired looks hread) _
    · rw [Session.dispatch_of_read hturn hread]
      exact stateM_bind_eq (io.read_host expired looks hread) _
  | offers byte =>
    rcases hwrite : io.write byte device with ⟨e | ⟨⟩, device'⟩
    · rw [Session.dispatch_of_write_failed hturn hwrite]
      exact stateM_bind_eq (io.write_host expired looks hwrite) _
    · rw [Session.dispatch_of_write hturn hwrite]
      exact stateM_bind_eq (io.write_host expired looks hwrite) _

section Rounds

variable {m : Machine} {device : σ} {last : Session σ}

theorem round_host_of_error {failure : Failure Error}
    (h : Session.dispatch io ⟨m, device⟩ = (.error failure, last)) :
    (io.host expired).round m (device, looks) =
      ((some (.failed failure), last.machine), (last.device, looks)) := by
  have hdispatch := io.dispatch_host expired looks m device
  rw [h] at hdispatch
  rw [Host.round, if_neg (by rw [Session.finished_of_error h]; exact Bool.false_ne_true)]
  exact stateM_bind_eq hdispatch _

theorem round_host_of_ok (hfinished : m.finished = false)
    (h : Session.dispatch io ⟨m, device⟩ = (.ok (), last)) :
    (io.host expired).round m (device, looks) =
      ((if expired looks then some .timedOut else none, last.machine),
        (last.device, looks + 1)) := by
  have hdispatch := io.dispatch_host expired looks m device
  rw [h] at hdispatch
  have hexpired : (io.host expired).expired (last.device, looks) =
      (expired looks, (last.device, looks + 1)) := rfl
  rw [Host.round, if_neg (by rw [hfinished]; exact Bool.false_ne_true), stateM_bind_eq hdispatch]
  refine (stateM_bind_eq hexpired _).trans ?_
  cases expired looks <;> rfl

variable {expired looks}

/-- **A run on the host of a console** is a run at the console. -/
theorem run_host {budget : Nat} {ending : Ending}
    (h : Session.runFrom io expired looks budget ⟨m, device⟩ = (ending, last)) :
    ∃ ending? looks', (io.host expired).run budget m (device, looks) =
      ((ending?, last.machine), (last.device, looks')) ∧ ending?.getD .suspended = ending := by
  induction budget generalizing m device looks with
  | zero =>
    rw [Session.runFrom] at h
    cases hfinished : m.finished with
    | true =>
      rw [if_pos hfinished] at h
      cases h
      exact ⟨some .completed, looks, by rw [Host.run, if_pos hfinished]; rfl, rfl⟩
    | false =>
      have hnot : ¬m.finished = true := by rw [hfinished]; exact Bool.false_ne_true
      rw [if_neg hnot] at h
      cases h
      exact ⟨none, looks, by rw [Host.run, if_neg hnot]; rfl, rfl⟩
  | succ budget ih =>
    cases hfinished : m.finished with
    | true =>
      rw [Session.runFrom_of_finished hfinished] at h
      cases h
      exact ⟨some .completed, looks, by rw [Host.run_finished _ hfinished]; rfl, rfl⟩
    | false =>
      rw [Host.run]
      rcases hdispatch : Session.dispatch io ⟨m, device⟩ with ⟨failure | ⟨⟩, s⟩
      · rw [Session.runFrom_of_error hdispatch] at h
        cases h
        exact ⟨some (.failed failure), looks,
          stateM_bind_eq (io.round_host_of_error expired looks hdispatch) _, rfl⟩
      · rw [Session.runFrom_of_dispatch hfinished hdispatch] at h
        have hround := io.round_host_of_ok expired looks hfinished hdispatch
        cases htime : expired looks with
        | true =>
          rw [htime] at h hround
          cases h
          exact ⟨some .timedOut, looks + 1, stateM_bind_eq hround _, rfl⟩
        | false =>
          rw [htime] at h hround
          obtain ⟨ending?, looks', hrun, hending⟩ := ih h
          exact ⟨ending?, looks', (stateM_bind_eq hround _).trans hrun, hending⟩

end Rounds

end Console

/-! ## Jobs -/

namespace CommandLine

/-- The plan is one for the live input and output. -/
def Plan.IsLive : Plan → Prop
  | run _ options => options.input = .stdin ∧ options.output = .stdout
  | print _ | fail _ => True

/-- The options of a request name the live input and output. -/
theorem Request.live_of_options {r : Request} {o : Options} (h : r.options = .ok o) :
    o.input = .stdin ∧ o.output = .stdout := by
  unfold options at h
  cases hlimit : r.timeLimit with
  | none =>
    rw [hlimit] at h
    cases h
    exact ⟨rfl, rfl⟩
  | some seconds =>
    rw [hlimit] at h
    dsimp only at h
    cases hseconds : timeLimit? seconds with
    | none =>
      rw [hseconds] at h
      cases h
    | some limit =>
      rw [hseconds] at h
      cases h
      exact ⟨rfl, rfl⟩

theorem Request.planFor_isLive (r : Request) (p : Program) : (r.planFor p).IsLive := by
  rw [planFor]
  cases r.dump with
  | true => trivial
  | false =>
    rw [if_neg Bool.false_ne_true]
    cases hoptions : r.options with
    | ok o => exact live_of_options hoptions
    | error message => trivial

theorem Request.plan_isLive (r : Request) (content : Except FileError ByteArray) :
    (r.plan content).2.IsLive := by
  cases content with
  | error e => trivial
  | ok bytes =>
    rw [plan]
    cases Program.compileBytes bytes with
    | error e => trivial
    | ok p => exact r.planFor_isLive p

namespace Terminal

variable (root : Node) (s : Surroundings)

/-- A job whose events are kept tells how its run ended by its exit code alone. -/
theorem conclude_recorded (record : Record) (ending : Ending) (steps position : Nat) :
    (recorded root s).conclude ending steps position record =
      (exitCode? ending,
        { record with events := record.events ++ eventsAtEnd ending steps position }) := by
  cases ending with
  | failed failure => cases failure <;> rfl
  | completed | timedOut | suspended => rfl

theorem run_recorded {limit : Option Nat} {m : Machine} {record : Record} {ending : Ending}
    {last : Session (Feed × LiveOutput)}
    (h : Session.run (.joined .fed .stdout) (s.clock.expired limit) s.budget
      ⟨m, (record.input, record.output)⟩ = (ending, last)) :
    (recorded root s).run limit m record =
      ((ending, last.machine), ⟨last.device.1, last.device.2, record.events⟩) := by
  obtain ⟨ending?, looks, hrun, rfl⟩ := Console.run_host _ h
  unfold recorded
  dsimp only
  rw [hrun]

theorem foldl_put (bytes : List UInt8) (output : LiveOutput) :
    bytes.foldl (fun output byte => output.put byte) output =
      ⟨output.delivered, output.heldBack ++ bytes.toArray⟩ := by
  induction bytes generalizing output with
  | nil => simp
  | cons byte bytes ih =>
    rw [List.foldl_cons, ih]
    simp [LiveOutput.put]

theorem print_recorded (text : String) (input : Feed) (events : List Log.Event) :
    ∃ record, (recorded root s).print text ⟨input, .untouched, events⟩ = ((), record) ∧
      record.output.delivered.toList = text.toUTF8.toList ∧ record.events = events := by
  refine ⟨_, rfl, ?_, rfl⟩
  dsimp only
  rw [foldl_put]
  simp [LiveOutput.flush, LiveOutput.untouched]

end Terminal

section Runs

variable {s : Surroundings} {program : Program} {o : Options}

theorem Plan.carryOut_of_no_tape {failure : Failure Error} (htape : o.tape? = .error failure) :
    (run program o).carryOut s =
      ⟨exitCode? (.failed failure), [], eventsAtEnd (.failed failure) 0 0⟩ := by
  have hreport : program.run o s = .unstarted failure := by
    rw [Program.run, htape]
  rw [carryOut, hreport, eventsOfRun, htape]
  rfl

theorem Plan.carryOut_of_run {tape : Tape} {ending : Ending} {last : Session (Feed × LiveOutput)}
    (hlive : (run program o).IsLive) (htape : o.tape? = .ok tape)
    (hrun : Session.run (.joined .fed .stdout) (s.clock.expired o.timeLimit) s.budget
      ⟨.start program tape, (.live s.stdin, .untouched)⟩ = (ending, last)) :
    (run program o).carryOut s = ⟨exitCode? ending, last.device.2.delivered.toList,
      .started program.size tape.size ::
        eventsAtEnd ending last.machine.steps last.machine.position⟩ := by
  obtain ⟨hinput, houtput⟩ := hlive
  have hreport : program.run o s = ⟨ending, none, [], last.device.2.delivered.toList,
      last.machine.steps, last.machine.position⟩ := by
    rw [Program.run, htape, houtput]
    dsimp only
    rw [Program.execute, hinput, Input.feed, hrun]
  rw [carryOut, hreport, eventsOfRun, htape]
  rfl

end Runs

/-- **A plan that is carried out at a terminal** leaves there what `Plan.carryOut` tells. -/
theorem Plan.carryOutAt_recorded (root : Node) (s : Surroundings) {plan : Plan}
    (hlive : plan.IsLive) (events : List Log.Event) :
    ∃ record, plan.carryOutAt (.recorded root s) ⟨.live s.stdin, .untouched, events⟩ =
        ((plan.carryOut s).exitCode?, record) ∧
      record.output.delivered.toList = (plan.carryOut s).stdout ∧
      record.events = events ++ (plan.carryOut s).events := by
  cases plan with
  | print text =>
    obtain ⟨record, hprint, houtput, hevents⟩ :=
      Terminal.print_recorded root s text (.live s.stdin) events
    refine ⟨record, stateM_bind_eq hprint _, houtput, ?_⟩
    rw [hevents]
    exact (List.append_nil events).symm
  | fail message => exact ⟨_, rfl, rfl, rfl⟩
  | run program options =>
    cases htape : options.tape? with
    | error failure =>
      rw [carryOut_of_no_tape htape, carryOutAt, htape]
      exact ⟨_, Terminal.conclude_recorded root s _ _ 0 0, rfl, rfl⟩
    | ok tape =>
      rcases hrun : Session.run (.joined .fed .stdout) (s.clock.expired options.timeLimit) s.budget
        ⟨.start program tape, (.live s.stdin, .untouched)⟩ with ⟨ending, last⟩
      have hlog : (Terminal.recorded root s).log [.started program.size tape.size]
          ⟨.live s.stdin, .untouched, events⟩ =
            ((), ⟨.live s.stdin, .untouched, events ++ [.started program.size tape.size]⟩) := rfl
      rw [carryOut_of_run hlive htape hrun, carryOutAt, htape]
      refine ⟨_, (stateM_bind_eq hlog _).trans ((stateM_bind_eq
        (Terminal.run_recorded root s hrun) _).trans
          (Terminal.conclude_recorded root s _ ending last.machine.steps last.machine.position)),
        rfl, ?_⟩
      exact List.append_assoc events _ _

/-- **A job that is carried out at a terminal** leaves there what `Request.carryOut` tells, and has
the same exit code. -/
theorem Request.carryOutAt_recorded (r : Request) (root : Node) (s : Surroundings) :
    ∃ record, r.carryOutAt (.recorded root s) (.start s.stdin) =
        ((r.carryOut root s).exitCode?, record) ∧
      record.output.delivered.toList = (r.carryOut root s).stdout ∧
      record.events = (r.carryOut root s).events :=
  Plan.carryOutAt_recorded root s (r.plan_isLive _) (r.plan (root.read r.source)).1

end CommandLine

end Brainfuck
