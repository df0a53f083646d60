import Brainfuck.Session

/-!
# Sessions whose bytes go through effects

A console is a function of its state, so it can only stand for the outside. A `Host` is the outside
itself: it reads and writes with the effects of a monad, and looks at its own clock. A machine that
it runs does what a session does (`Session.dispatch`, `Session.run`), but each read and each write
takes place when the opcode asks for it.

`Console.host` makes a host of a console; its effects are changes of the console's state.
-/

namespace Brainfuck

/-- What a machine that runs needs of the outside. -/
structure Host (μ : Type → Type) where
  /-- Asks for one byte; none means that no byte is there. -/
  read : μ (Except DeviceError (Option UInt8))
  /-- Hands over one byte. -/
  write : UInt8 → μ (Except DeviceError Unit)
  /-- Looks at the clock and tells whether time is up. -/
  expired : μ Bool

namespace Host

variable {μ : Type → Type} [Monad μ]

/-- Serves the read or the write of a turn. The machine is the one that waits for it. -/
def serve (host : Host μ) (turn : Turn) (m : Machine) :
    μ (Except (Failure Error) Unit × Machine) :=
  match turn with
  | .halted | .moved => return (.ok (), m)
  | .failed failure => return (.error failure, m)
  | .asks => do
    match ← host.read with
    | .ok byte => return (.ok (), m.receive byte)
    | .error e => return (.error (.reported (.io e)), m)
  | .offers byte => do
    match ← host.write byte with
    | .ok () => return (.ok (), m.advance)
    | .error e => return (.error (.reported (.io e)), m)

/-- Executes one opcode. If there is none left, nothing happens. -/
def dispatch (host : Host μ) (m : Machine) : μ (Except (Failure Error) Unit × Machine) :=
  let (turn, m) := m.turn
  host.serve turn m

/-- One round of a run; no ending if the run goes on. -/
def round (host : Host μ) (m : Machine) : μ (Option Ending × Machine) :=
  if m.finished then return (some .completed, m)
  else do
    match ← host.dispatch m with
    | (.error failure, m) => return (some (.failed failure), m)
    | (.ok (), m) =>
      if ← host.expired then return (some .timedOut, m) else return (none, m)

/-- Runs a machine until it ends; no ending if the budget is used up before. -/
def run (host : Host μ) : Nat → Machine → μ (Option Ending × Machine)
  | 0, m => return (if m.finished then some .completed else none, m)
  | budget + 1, m => do
    match ← host.round m with
    | (some ending, m) => return (some ending, m)
    | (none, m) => host.run budget m

end Host

/-- A console as a host. The state is that of the console, with the number of looks at the clock so
far; `expired k` tells whether time is up at look number `k`, counted from zero. -/
def Console.host {σ : Type} (io : Console σ) (expired : Nat → Bool) : Host (StateM (σ × Nat)) where
  read := fun (device, looks) =>
    let (answer, device) := io.read device
    (answer, (device, looks))
  write := fun byte (device, looks) =>
    let (answer, device) := io.write byte device
    (answer, (device, looks))
  expired := fun (device, looks) => (expired looks, (device, looks + 1))

end Brainfuck
