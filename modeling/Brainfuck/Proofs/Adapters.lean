import Brainfuck.CommandLine.Job
import Brainfuck.Proofs.Acceptance
import Brainfuck.Proofs.Alike
import Brainfuck.Proofs.Safety

/-!
# Inputs and outputs are interchangeable

It makes no difference to a run whether its bytes come from the live input, from a list, or from a
callback that answers with them in order, and none whether they go to the live output, to a buffer,
or to a callback. The run is always the one at the console that serves the bytes by their number and
takes whatever is written (`Console.serving`): every feed of these bytes answers as that console
does (`Feed.Serves`), and every sink ends up with just the bytes that the dispatches write
(`Sink.Keeps`).

Main result: `Program.run_interchangeable`, for the runs of a program and for the command line, on
every tape that there can be room for. On a greater one nothing runs
(`Program.run_capacity_exceeded`).
-/

namespace Brainfuck

/-! ## Sources -/

/-- The byte that the attempt comes back with. -/
def Attempt.byte? : Attempt → Option UInt8
  | byte value => some value
  | interrupted => none

/-- The bytes that the live input still holds. -/
def LiveInput.bytes (rest : LiveInput) : List UInt8 := rest.filterMap Attempt.byte?

theorem LiveInput.next_eq (rest : LiveInput) :
    rest.next.1 = (bytes rest).head? ∧ bytes rest.next.2 = (bytes rest).tail := by
  induction rest with
  | nil => exact ⟨rfl, rfl⟩
  | cons attempt later ih =>
    cases attempt with
    | byte value => exact ⟨rfl, rfl⟩
    | interrupted => exact ih

/-- The feed answers with the bytes `xs`, from the one with number `n` on, and then with none. -/
inductive Feed.Serves (xs : List UInt8) (n : Nat) : Feed → Prop
  | live {rest : LiveInput} (h : rest.bytes = xs.drop n) : Serves xs n (.live rest)
  | bytes {rest : List UInt8} (h : rest = xs.drop n) : Serves xs n (.bytes rest)
  | callback {answer : Nat → Option UInt8} (h : ∀ k, answer k = xs[k]?) :
      Serves xs n (.callback answer n)

/-- **Every feed of the same bytes answers alike.** -/
theorem Feed.Serves.next {xs : List UInt8} {n : Nat} {feed : Feed} (h : feed.Serves xs n) :
    feed.next.1 = xs[n]? ∧ feed.next.2.Serves xs (n + 1) := by
  cases h with
  | live h =>
    obtain ⟨hbyte, hrest⟩ := LiveInput.next_eq _
    rw [h] at hbyte hrest
    exact ⟨hbyte.trans List.head?_drop, .live (hrest.trans List.tail_drop)⟩
  | @bytes rest h =>
    have hhead : rest.head? = xs[n]? := by rw [h, List.head?_drop]
    have htail : rest.tail = xs.drop (n + 1) := by rw [h, List.tail_drop]
    cases rest with
    | nil => exact ⟨hhead, .bytes htail⟩
    | cons byte rest => exact ⟨hhead, .bytes htail⟩
  | callback h => exact ⟨h n, .callback h⟩

/-- The input holds the bytes `xs`, where the live input is `stdin`. -/
inductive Input.Holds (stdin : LiveInput) (xs : List UInt8) : Input → Prop
  | stdin (h : stdin.bytes = xs) : Holds stdin xs .stdin
  | bytes : Holds stdin xs (.bytes xs)
  | callback {answer : Nat → Option UInt8} (h : ∀ n, answer n = xs[n]?) :
      Holds stdin xs (.callback answer)

theorem Input.Holds.feed {stdin : LiveInput} {xs : List UInt8} {input : Input}
    (h : input.Holds stdin xs) : (input.feed stdin).Serves xs 0 := by
  cases h with
  | stdin h => exact .live h
  | bytes => exact .bytes rfl
  | callback h => exact .callback h

/-! ## Sinks -/

section Sinks

variable {τ : Type} {sink : Sink τ} {state : List UInt8 → τ}

/-- The sink takes every byte. Its state is `state bytes` when `bytes` have been written. -/
def Sink.Keeps (sink : Sink τ) (state : List UInt8 → τ) : Prop :=
  ∀ bytes byte, sink.write byte (state bytes) = (.ok (), state (bytes ++ [byte]))

/-- The live output never holds anything back behind a write. -/
theorem Sink.stdout_keeps : Sink.stdout.Keeps fun bytes => ⟨bytes.toArray, #[]⟩ := by
  intro bytes byte
  simp [stdout, LiveOutput.put, LiveOutput.flush]

theorem Sink.buffer_keeps : Sink.buffer.Keeps List.toArray := by
  intro bytes byte
  simp [buffer]

theorem Sink.callback_keeps : Sink.callback.Keeps List.reverse := by
  intro bytes byte
  simp [callback]

/-! ## Runs -/

/-- Answers its reads with the bytes `xs`, one after the other, and then with none, and takes
whatever is written. Its state is the number of reads so far. -/
def Console.serving (xs : List UInt8) : Console Nat where
  read := fun n => (.ok xs[n]?, n + 1)
  write := fun _ n => (.ok (), n)

theorem Console.joined_write {σ : Type} (source : Source σ) (hsink : sink.Keeps state) (s : σ)
    (bytes : List UInt8) (byte : UInt8) :
    (joined source sink).write byte (s, state bytes) = (.ok (), (s, state (bytes ++ [byte]))) := by
  show ((sink.write byte (state bytes)).1, s, (sink.write byte (state bytes)).2) = _
  rw [hsink bytes byte]

/-- Where a feed of `xs` is joined with a sink, the machine hears what `Console.serving` answers. -/
theorem Console.joined_alike (hsink : sink.Keeps state) (xs : List UInt8) :
    (joined .fed sink).Alike (serving xs) fun device n =>
      device.1.Serves xs n ∧ ∃ bytes, device.2 = state bytes := by
  constructor
  case read =>
    rintro ⟨feed, device⟩ n ⟨hfeed, hdevice⟩
    obtain ⟨hbyte, hnext⟩ := hfeed.next
    refine ⟨?_, hnext, hdevice⟩
    show Except.ok (heard feed.next.1) = _
    rw [hbyte]
    rfl
  case write =>
    rintro ⟨feed, device⟩ n byte ⟨hfeed, bytes, rfl⟩
    rw [joined_write .fed hsink]
    exact ⟨rfl, hfeed, _, rfl⟩

theorem Console.joined_records {σ : Type} (source : Source σ) (hsink : sink.Keeps state) :
    (joined source sink).Records fun bytes device => device.2 = state bytes := by
  constructor
  case read =>
    intro bytes device h
    exact h
  case write =>
    rintro bytes ⟨s, device⟩ byte rfl
    exact ⟨_, joined_write source hsink s bytes byte, rfl⟩

end Sinks

/-- The request asks for the program `p`, compiled from the file `source`, to be run on a tape of
`size` cells for as long as it takes. -/
structure CommandLine.Request.AsksToRun (r : Request) (root : Node) (source : ByteArray)
    (p : Program) (size : Nat) : Prop where
  reads : root.read r.source = .ok source
  compiles : Program.compileBytes source = .ok p
  tapeSize : r.tapeSize = size
  timeLimit : r.timeLimit = none
  dump : r.dump = false

theorem CommandLine.Request.AsksToRun.plan_eq {r : Request} {root : Node} {source : ByteArray}
    {p : Program} {size : Nat} (h : r.AsksToRun root source p size) :
    (r.plan (root.read r.source)).2 = .run p ⟨size, none, .stdin, .stdout⟩ := by
  rw [h.reads, plan, h.compiles]
  simp [planFor, options, Options.standard, h.dump, h.timeLimit, h.tapeSize]

/-- A program on a blank tape, with no read behind it. -/
def Session.fresh (p : Program) (size : Nat) : Session Nat := ⟨.start p (.blank size), 0⟩

namespace Program

section Runs

variable {p : Program} {size budget : Nat} {xs : List UInt8} {ending : Ending} {last : Session Nat}
  (hrun : (Session.fresh p size).run (.serving xs) (fun _ => false) budget = (ending, last))

include hrun

/-- **What a run comes to**, whatever feed of `xs` and whatever sink it is given. -/
theorem exists_execute_eq {τ : Type} {sink : Sink τ} {state : List UInt8 → τ}
    (hsink : sink.Keeps state) (start : τ) (hstart : start = state []) {stdin : LiveInput}
    {input : Input} (hinput : input.Holds stdin xs) (clock : Clock) (output : Output) :
    ∃ feed, p.execute (.blank size) ⟨size, none, input, output⟩ ⟨stdin, clock, budget⟩ sink start =
      (ending, ⟨last.machine, feed,
        state ((Session.fresh p size).writtenBy (.serving xs) last.machine.steps)⟩) := by
  subst hstart
  have halike := Console.joined_alike hsink xs
  have hrecords := Console.joined_records Source.fed hsink
  have hstart : Session.Alike
      (fun device n => device.1.Serves xs n ∧ ∃ bytes, device.2 = state bytes)
      ⟨.start p (.blank size), (input.feed stdin, state [])⟩ (Session.fresh p size) :=
    ⟨rfl, hinput.feed, [], rfl⟩
  obtain ⟨hending, hlast⟩ := Session.run_alike halike hstart (fun _ => false) budget
  rcases h : Session.run (.joined .fed sink) (fun _ => false) budget
      ⟨.start p (.blank size), (input.feed stdin, state [])⟩ with ⟨ending', machine, feed, device⟩
  rw [hrun, h] at hending hlast
  obtain rfl : ending' = ending := hending
  obtain rfl : machine = last.machine := hlast.machine
  have hdevice := Session.records_of_run hrecords h rfl rfl
  rw [List.nil_append, Session.writtenBy_alike halike hstart] at hdevice
  obtain rfl : device =
      state ((Session.fresh p size).writtenBy (.serving xs) last.machine.steps) := hdevice
  exact ⟨feed, h⟩

/-- **The report of a run** tells the same whatever the input, and what is written reaches the
output that was chosen and no other. -/
theorem run_eq (hsize : 0 < size) (hroom : (size : Int) ≤ greatestPosition) {stdin : LiveInput}
    {input : Input} (hinput : input.Holds stdin xs) (clock : Clock) (output : Output)
    {written : List UInt8}
    (hwritten : (Session.fresh p size).writtenBy (.serving xs) last.machine.steps = written) :
    p.run ⟨size, none, input, output⟩ ⟨stdin, clock, budget⟩ =
      ⟨ending, if output = .buffer ∧ ending.succeeded = true then some written else none,
        if output = .callback then written else [], if output = .stdout then written else [],
        last.machine.steps, last.machine.position⟩ := by
  have hvalid : (Options.mk size none input output).invalid? = none :=
    Options.invalid?_eq_none_iff.mpr ⟨hsize, nofun⟩
  rw [run, Options.tape?_eq_ok hvalid hroom]
  cases output with
  | stdout =>
    obtain ⟨feed, h⟩ := exists_execute_eq hrun Sink.stdout_keeps .untouched rfl hinput clock .stdout
    dsimp only
    rw [h, hwritten]
    rfl
  | buffer =>
    obtain ⟨feed, h⟩ := exists_execute_eq hrun Sink.buffer_keeps #[] rfl hinput clock .buffer
    dsimp only
    rw [h, hwritten]
    simp
  | callback =>
    obtain ⟨feed, h⟩ := exists_execute_eq hrun Sink.callback_keeps [] rfl hinput clock .callback
    dsimp only
    rw [h, hwritten]
    simp

/-- The command line runs the program on its live input and output. -/
theorem carryOut_eq (hsize : 0 < size) (hroom : (size : Int) ≤ greatestPosition)
    {stdin : LiveInput} (hstdin : stdin.bytes = xs) (clock : Clock) {root : CommandLine.Node}
    {r : CommandLine.Request} {source : ByteArray} (hr : r.AsksToRun root source p size)
    {written : List UInt8}
    (hwritten : (Session.fresh p size).writtenBy (.serving xs) last.machine.steps = written) :
    (r.carryOut root ⟨stdin, clock, budget⟩).stdout = written ∧
      (r.carryOut root ⟨stdin, clock, budget⟩).exitCode? = CommandLine.exitCode? ending := by
  have hreport := run_eq hrun hsize hroom (.stdin hstdin) clock .stdout hwritten
  unfold CommandLine.Request.carryOut
  dsimp only
  rw [hr.plan_eq, CommandLine.Plan.carryOut, hreport]
  exact ⟨rfl, rfl⟩

/-- A program that was compiled from a source of bytes does not crash. -/
theorem not_crashed_of_compileBytes {source : ByteArray} (hcompile : compileBytes source = .ok p)
    (hsource : ((source.size + size : Nat) : Int) ≤ greatestPosition) (crash : Crash) :
    ending ≠ .failed (.crashed crash) := by
  obtain ⟨text, rfl, htext⟩ := exists_text_of_compileBytes hcompile
  have hlength := Plain.length_commandsOf_le text
  have hword : (((Plain.commandsOf text).length + size : Nat) : Int) ≤ greatestPosition := by
    have hbytes : text.toUTF8.size = text.utf8ByteSize := rfl
    omega
  have hsound : (Session.fresh p size).machine.Sound p size :=
    Machine.start_sound (Tape.blank_placed size) p
  obtain ⟨-, hcrash, -⟩ := Session.call_sound (wellFormed_of_compile htext) (compile_within htext)
    hword (.serving xs) hsound (.run (fun _ => false) budget)
  intro hending
  apply hcrash crash
  rw [Session.call, hrun, hending]

end Runs

/-- **Inputs and outputs are interchangeable.** All runs of a program on the same bytes, wherever
these come from and wherever the output goes, end alike, after as many opcodes and at the same
place, and have the same result. What a callback is told, or is seen on the live output, is what a
completed run returns in its buffer; in a run that fails, it is what the dispatches write before the
one that fails. The command line writes the same to its output, and its exit code tells whether the
run has succeeded. -/
theorem run_interchangeable (p : Program) {size : Nat} (hsize : 0 < size)
    (hroom : (size : Int) ≤ greatestPosition) (xs : List UInt8) (budget : Nat) :
    ∃ ending last written,
      (Session.fresh p size).run (.serving xs) (fun _ => false) budget = (ending, last) ∧
      (Session.fresh p size).writtenBy (.serving xs) last.machine.steps = written ∧
      ending ≠ .timedOut ∧
      (∀ failure, ending = .failed failure → ∃ s,
        (Session.fresh p size).after (.serving xs) last.machine.steps = .ok s ∧
          s.dispatch (.serving xs) = (.error failure, last)) ∧
      (∀ stdin clock input output, input.Holds stdin xs →
        ∃ r, p.run ⟨size, none, input, output⟩ ⟨stdin, clock, budget⟩ = r ∧
          r.ending = ending ∧ r.steps = last.machine.steps ∧ r.position = last.machine.position ∧
          (ending = .completed →
            r.result? = some (.ok ⟨if output = .buffer then some written else none, false⟩)) ∧
          (∀ failure, ending = .failed failure → r.result? = some (.error failure)) ∧
          r.told = (if output = .callback then written else []) ∧
          r.printed = if output = .stdout then written else []) ∧
      ∀ stdin clock root source r, stdin.bytes = xs →
        CommandLine.Request.AsksToRun r root source p size →
        ∃ job, r.carryOut root ⟨stdin, clock, budget⟩ = job ∧ job.stdout = written ∧
          (ending = .completed → job.exitCode? = some 0) ∧
          (∀ e, ending = .failed (.reported e) → job.exitCode? = some 1) ∧
          (∀ crash, ending = .failed (.crashed crash) → job.exitCode? = some 101) ∧
          (ending = .suspended → job.exitCode? = none) ∧
          (((source.size + size : Nat) : Int) ≤ greatestPosition →
            ∀ crash, ending ≠ .failed (.crashed crash)) := by
  rcases hrun : (Session.fresh p size).run (.serving xs) (fun _ => false) budget with
    ⟨ending, last⟩
  refine ⟨ending, last, _, rfl, rfl, ?_, ?_, ?_, ?_⟩
  · rintro rfl
    exact Session.runFrom_ne_timedOut _ 0 budget (congrArg Prod.fst hrun)
  · rintro failure rfl
    exact Session.exists_after_steps_of_runFrom hrun rfl
  · intro stdin clock input output hinput
    refine ⟨_, run_eq hrun hsize hroom hinput clock output rfl, rfl, rfl, rfl, ?_, ?_, rfl, rfl⟩
    · rintro rfl
      simp [Report.result?, Ending.succeeded]
    · rintro failure rfl
      rfl
  · intro stdin clock root source r hstdin hr
    obtain ⟨hstdout, hexit⟩ := carryOut_eq hrun hsize hroom hstdin clock hr rfl
    refine ⟨_, rfl, hstdout, ?_, ?_, ?_, ?_, not_crashed_of_compileBytes hrun hr.compiles⟩
    · rintro rfl
      exact hexit
    · rintro e rfl
      exact hexit
    · rintro crash rfl
      exact hexit
    · rintro rfl
      exact hexit

/-- Two bytes are read and written, and then the cursor leaves the tape. The callback is told the
same two bytes as are seen on the output of the command line, where calls for input are
interrupted. -/
theorem run_interchangeable_two_bytes :
    ∃ p e, compileBytes ",.,.<.".toUTF8 = .ok p ∧ 0 < 1 ∧ ((1 : Nat) : Int) ≤ greatestPosition ∧
      (∃ r, p.run ⟨1, none, .callback fun n => [104, 105][n]?, .callback⟩ ⟨[], .steady 1, 9⟩ = r ∧
        r.result? = some (.error (.reported e)) ∧ r.told = [104, 105] ∧ r.printed = []) ∧
      ∃ root, CommandLine.Node.read root "greet.b" = .ok ",.,.<.".toUTF8 ∧
        ∃ job, CommandLine.Request.carryOut ⟨"greet.b", 1, none, false⟩ root
            ⟨[.interrupted, .byte 104, .interrupted, .byte 105], .steady 1, 9⟩ = job ∧
          job.exitCode? = some 1 ∧ job.stdout = [104, 105] := by
  have hcompile : compileBytes ",.,.<.".toUTF8 =
      .ok ⟨#[⟨0, .perform .read⟩, ⟨0, .perform .write⟩, ⟨0, .perform .read⟩, ⟨0, .perform .write⟩,
        ⟨-1, .perform .write⟩]⟩ := by decide +kernel
  have hread : CommandLine.Node.read (.directory [("greet.b", .file ",.,.<.".toUTF8)]) "greet.b" =
      .ok ",.,.<.".toUTF8 := by decide +kernel
  obtain ⟨ending, last, written, hrun, hwritten, -, -, hreports, hjobs⟩ :=
    run_interchangeable ⟨#[⟨0, .perform .read⟩, ⟨0, .perform .write⟩, ⟨0, .perform .read⟩,
      ⟨0, .perform .write⟩, ⟨-1, .perform .write⟩]⟩ Nat.zero_lt_one (by decide) [104, 105] 9
  cases hrun
  obtain rfl : [104, 105] = written := hwritten
  obtain ⟨r, hr, -, -, -, -, hresult, htold, hprinted⟩ :=
    hreports [] (.steady 1) (.callback fun n => [104, 105][n]?) .callback (.callback fun _ => rfl)
  obtain ⟨job, hjob, hstdout, -, hexit, -⟩ :=
    hjobs [.interrupted, .byte 104, .interrupted, .byte 105] (.steady 1) _ _
      ⟨"greet.b", 1, none, false⟩ rfl ⟨hread, hcompile, rfl, rfl, rfl⟩
  exact ⟨_, _, hcompile, by decide, by decide, ⟨r, hr, hresult _ rfl, htold, hprinted⟩, _, hread,
    job, hjob, hexit _ rfl, hstdout⟩

/-- On a tape that there can be no room for, a run has no result but a crash, and the command line
exits with neither of its codes, though the size is positive and the source compiles. -/
theorem run_capacity_exceeded :
    compileBytes "".toUTF8 = .ok ⟨#[]⟩ ∧ 0 < 9223372036854775808 ∧
      ((⟨#[]⟩ : Program).run ⟨9223372036854775808, none, .bytes [], .buffer⟩
        ⟨[], .steady 1, 1⟩).result? = some (.error (.crashed .capacity)) ∧
      CommandLine.Request.AsksToRun ⟨"empty.b", 9223372036854775808, none, false⟩
        (.directory [("empty.b", .file "".toUTF8)]) "".toUTF8 ⟨#[]⟩ 9223372036854775808 ∧
      (CommandLine.Request.carryOut ⟨"empty.b", 9223372036854775808, none, false⟩
        (.directory [("empty.b", .file "".toUTF8)]) ⟨[], .steady 1, 1⟩).exitCode? = some 101 := by
  have hrun : ∀ input output, (⟨#[]⟩ : Program).run ⟨9223372036854775808, none, input, output⟩
      ⟨[], .steady 1, 1⟩ = .unstarted (.crashed .capacity) := by
    intro input output
    have hvalid : (Options.mk 9223372036854775808 none input output).invalid? = none :=
      Options.invalid?_eq_none_iff.mpr ⟨Nat.zero_lt_succ _, nofun⟩
    have hsize : greatestPosition < ((9223372036854775808 : Nat) : Int) := by decide
    rw [run, Options.tape?_eq_capacity hvalid hsize]
  have hread : CommandLine.Node.read (.directory [("empty.b", .file "".toUTF8)]) "empty.b" =
      .ok "".toUTF8 := by decide +kernel
  have hcompile : compileBytes "".toUTF8 = .ok ⟨#[]⟩ := by decide +kernel
  have hasks : CommandLine.Request.AsksToRun ⟨"empty.b", 9223372036854775808, none, false⟩
      (.directory [("empty.b", .file "".toUTF8)]) "".toUTF8 ⟨#[]⟩ 9223372036854775808 :=
    ⟨hread, hcompile, rfl, rfl, rfl⟩
  refine ⟨hcompile, by decide, ?_, hasks, ?_⟩
  · rw [hrun]
    rfl
  · unfold CommandLine.Request.carryOut
    dsimp only
    rw [hasks.plan_eq, CommandLine.Plan.carryOut, hrun]
    rfl

end Program

end Brainfuck
