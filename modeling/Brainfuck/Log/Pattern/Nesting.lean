/-!
# Nesting of patterns

How deep the parts of a pattern lie inside each other. A single part has no depth of its own, a row
of several has, and so have groups, classes and repetitions. Patterns nested too deep are refused.

No theorem depends on these definitions (see `Log.Pattern`).
-/

namespace Brainfuck.Log.Pattern

/-- The greatest depth that a pattern may have. -/
def deepest : Nat := 250

/-- What is known of parts in a row: how many they are, and the depth of the deepest. -/
structure Row where
  count : Nat
  depth : Nat
  deriving DecidableEq, Repr

namespace Row

/-- A row without parts. -/
def empty : Row := ⟨0, 0⟩

/-- The row with one more part of the given depth. -/
def add (r : Row) (depth : Nat) : Row := ⟨r.count + 1, max r.depth depth⟩

/-- The depth of the row as one part. A row of one is that one. -/
def nesting (r : Row) : Nat := if r.count ≤ 1 then r.depth else r.depth + 1

end Row

end Brainfuck.Log.Pattern
