/-!
# The log

Events that a job reports beside its output, and the lines in which they are written. Which of them
are shown is decided by a filter (`Log.Filter`).
-/

namespace Brainfuck.Log

/-- How urgent an event is. -/
inductive Level
  | error
  | warn
  | info
  | debug
  | trace
  deriving DecidableEq, Repr

/-- The level in capitals. -/
def Level.name : Level → String
  | error => "ERROR"
  | warn => "WARN"
  | info => "INFO"
  | debug => "DEBUG"
  | trace => "TRACE"

/-- The place of the level, most urgent first. -/
def Level.rank : Level → Nat
  | error => 1
  | warn => 2
  | info => 3
  | debug => 4
  | trace => 5

/-- What part of the program an event comes from. -/
inductive Origin
  | compiler
  | machine
  | commandLine
  deriving DecidableEq, Repr

/-- The name by which a filter knows the part. -/
def Origin.name : Origin → String
  | compiler => "brainfuck.compiler"
  | machine => "brainfuck.machine"
  | commandLine => "brainfuck"

/-- Something worth reporting. -/
inductive Event
  /-- A text of so many commands has been compiled into so many opcodes. -/
  | compiled (tokens opcodes : Nat)
  | started (opcodes tapeSize : Nat)
  | finished (steps : Nat)
  | timeLimitExceeded (steps position : Nat)
  /-- The job has failed. -/
  | failed (message : String)
  deriving DecidableEq, Repr

/-! ## Lines -/

/-- A character as it is written in the log. The control characters that could steer a terminal are
spelled out: the bell, backspace, form feed, escape and delete by two digits, and those beyond ASCII
by their number in braces. -/
def escapeChar (c : Char) : List Char :=
  let digits := Nat.toDigits 16 c.toNat
  if ['\x07', '\x08', '\x0c', '\x1b', '\x7f'].contains c then
    '\\' :: 'x' :: List.replicate (2 - digits.length) '0' ++ digits
  else if 0x80 ≤ c.toNat ∧ c.toNat ≤ 0x9f then '\\' :: 'u' :: '\x7b' :: digits ++ ['\x7d']
  else [c]

/-- A text as it is written in the log. -/
def escape (text : String) : String := String.ofList (text.toList.flatMap escapeChar)

example : escape "a\x07\u0085\n" = "a\\x07\\u\x7b85\x7d\n" := by decide +kernel

namespace Event

def level : Event → Level
  | compiled _ _ | started _ _ | finished _ => .debug
  | timeLimitExceeded _ _ => .warn
  | failed _ => .error

def origin : Event → Origin
  | compiled _ _ => .compiler
  | started _ _ | finished _ | timeLimitExceeded _ _ => .machine
  | failed _ => .commandLine

/-- The words of the event, without its figures. -/
def headline : Event → String
  | compiled _ _ => "compiled program"
  | started _ _ => "starting execution"
  | finished _ => "execution finished"
  | timeLimitExceeded _ _ => "time limit exceeded"
  | failed message => message

/-- The figures of the event. -/
def figures : Event → List (String × Nat)
  | compiled tokens opcodes => [("tokens", tokens), ("opcodes", opcodes)]
  | started opcodes tapeSize => [("opcodes", opcodes), ("tape_size", tapeSize)]
  | finished steps => [("steps", steps)]
  | timeLimitExceeded steps position => [("steps", steps), ("ip", position)]
  | failed _ => []

/-- The names of all that the event tells, its words among them. -/
def fields (e : Event) : List String := "message" :: e.figures.map (·.1)

/-- The event as a line of the log, without its level. -/
def text (e : Event) : String :=
  " ".intercalate (escape e.headline :: e.figures.map fun (name, value) => s!"{name}={value}")

end Event

end Brainfuck.Log
