import Brainfuck.CommandLine.Terminal

/-!
# The program

Reads the source text from the disk, runs it on the live input and output, and writes the log to the
error output. What is to be done, and in which order, is decided elsewhere (`Request.carryOutAt`,
`Host.round`); here are only the effects.
-/

namespace Brainfuck.Live

open CommandLine

/-- The environment variable that holds the log filter. -/
def filterVariable : String := "BRAINFUCK_LOG"

/-! ## Files -/

/-- The number of a system error, which some calls give with its sign turned. -/
def errorNumber (code : UInt32) : UInt32 := min code (0 - code)

/-- The reason why a file could not be read. -/
def fileError : IO.Error → FileError
  | .noFileOrDirectory _ _ _ => .notFound
  | .inappropriateType _ code reason =>
    if errorNumber code = 20 then .notADirectory
    else if errorNumber code = 21 then .isADirectory
    else .other reason
  | .invalidArgument _ code reason =>
    if errorNumber code = 36 then .nameTooLong else .other reason
  | e => .other (toString e)

/-- Reads a file from the disk. -/
def readFile (path : String) : IO (Except FileError ByteArray) := do
  try return .ok (← IO.FS.readBinFile path)
  catch e => return .error (fileError e)

/-! ## Input and output -/

/-- The live input and output, and a clock that is looked at if there is a deadline. -/
def host (deadline : Option Nat) : Host IO where
  read := do
    try
      let bytes ← (← IO.getStdin).read 1
      return .ok bytes.toList.head?
    catch e => return .error ⟨toString e⟩
  write := fun byte => do
    try
      let stdout ← IO.getStdout
      stdout.write (ByteArray.mk #[byte])
      stdout.flush
      return .ok ()
    catch e => return .error ⟨toString e⟩
  expired :=
    match deadline with
    | none => return false
    | some time => return time ≤ (← IO.monoNanosNow)

instance : Nonempty (Ending × Machine) := ⟨(.completed, .start ⟨#[]⟩ (.blank 0))⟩

/-- Runs a machine until it ends, however long that takes. -/
def run (host : Host IO) : Machine → IO (Ending × Machine) :=
  repeatM fun m => do
    match ← host.round m with
    | (none, m) => return .inl m
    | (some ending, m) => return .inr (ending, m)

/-- Says that the job has crashed. -/
def lament (crash : Crash) : IO Unit := IO.eprintln s!"crashed: {crash.cause}"

/-- The terminal of the process. Events that the filter does not show are left out. -/
def terminal (f : Log.Filter) : Terminal IO where
  readFile := readFile
  print := IO.print
  log := fun events => do
    for e in events do
      if f.shows e.origin.name e then IO.eprintln s!"{e.level.name} {e.text}"
  lament := lament
  run := fun limit m => do
    let deadline := deadline? (← IO.monoNanosNow) limit
    Live.run (host deadline) m

/-! ## Jobs -/

/-- Says why a job was not set up. -/
def explain : Failure Refusal → IO Unit
  | .reported .help => IO.println usage
  | .reported (.usage e) => do
    IO.eprintln e.message
    IO.eprintln usage
  | .crashed crash => lament crash

/-- Does what the command line asks for and tells the exit code. -/
def job (arguments : List String) : IO Nat := do
  match setUp (← IO.getEnv filterVariable) arguments with
  | .error failure => do
    explain failure
    return exitCodeWithoutSetUp failure
  | .ok (f, r) => return (← r.carryOutAt (terminal f)).getD 0

end Brainfuck.Live

def main (arguments : List String) : IO UInt32 := do
  return (← Brainfuck.Live.job arguments).toUInt32
