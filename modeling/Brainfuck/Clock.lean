/-!
# Clocks and time limits

Times are counted in nanoseconds. A clock tells one time for every look at it: the first look is
taken when a run starts, and one more after each dispatch.
-/

namespace Brainfuck

/-- What each look at the clock shows. -/
abbrev Clock := Nat → Nat

/-- A clock on which every dispatch takes the same time. -/
def Clock.steady (perDispatch : Nat) : Clock := fun look => look * perDispatch

/-- Nanoseconds in a second. -/
def nanosecondsPerSecond : Nat := 1000000000

/-- The first time that cannot be told, since its seconds do not fit into a signed 64-bit word. -/
def endOfTime : Nat := 9223372036854775808 * nanosecondsPerSecond

/-- The time at which a run that starts at `start` has to stop. A limit that ends after the end of
time is no limit. -/
def deadline? (start : Nat) (limit : Option Nat) : Option Nat :=
  match limit with
  | none => none
  | some limit => if start + limit < endOfTime then some (start + limit) else none

/-- Whether the limit of a run has passed at the look behind its `dispatch`th dispatch, counted
from zero. -/
def Clock.expired (clock : Clock) (limit : Option Nat) (dispatch : Nat) : Bool :=
  match deadline? (clock 0) limit with
  | none => false
  | some deadline => deadline ≤ clock (dispatch + 1)

end Brainfuck
