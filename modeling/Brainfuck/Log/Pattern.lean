import Brainfuck.Log.Pattern.Class
import Brainfuck.Text.Alphanumeric

/-!
# Patterns

Whether a text is a regular expression. A filter may ask for fields whose value matches one; since
nothing here has such a value, a pattern is never matched, but a malformed one spoils its filter.

The reader goes from item to item (`Place.step?`). It keeps what it has read of the groups that are
open: the flags in force, how deep the parts lie, and whether there is something in front that can
be repeated. Counts of repetitions, which need braces, cannot stand in a filter, and so are refused.

Like `Log.Pattern.Escape`, `Log.Pattern.Class` and `Log.Pattern.Nesting`, this follows the
documented behaviour of a library that is not part of the program. It belongs to the outer layer: no
theorem depends on it.
-/

namespace Brainfuck.Log.Pattern

/-! ## Flags and names -/

/-- The letters of flags, and the dash in front of those to be taken back. -/
def flagMarks : List Char := "imsUuRx-".toList

/-- The marks can stand together: each once, and the dash not last. -/
def areFlags (marks : List Char) : Bool :=
  marks.all flagMarks.contains && decide marks.Nodup && marks.getLast? != some '-'

/-- The flags after the marks have been taken into account. -/
def Flags.set (f : Flags) (marks : List Char) : Flags :=
  let change (flag : Char) (before : Bool) : Bool :=
    (marks.takeWhile (· ≠ '-')).contains flag || (before && !marks.contains flag)
  ⟨change 'u' f.unicode, change 'i' f.caseless, change 'x' f.spaced⟩

/-- The name of a group: a letter or an underscore, then also digits, points and brackets. -/
def isName : List Char → Bool
  | [] => false
  | c :: rest =>
    (c = '_' || Text.isAlphabetic c)
      && rest.all fun c => "_.[]".toList.contains c || Text.isAlphanumeric c

/-! ## Groups -/

/-- What has been read of a group that is open, or of the whole pattern. -/
structure Frame where
  flags : Flags
  /-- The alternatives in front of the last bar. -/
  branches : Row
  /-- The items since then, but for the last one if it can be repeated. -/
  items : Row
  /-- The depth of the last item if it can be repeated. -/
  last : Option Nat
  deriving DecidableEq, Repr

namespace Frame

/-- A group of which nothing has been read. -/
def opened (flags : Flags) : Frame := ⟨flags, .empty, .empty, none⟩

/-- All the items since the last bar. -/
def branch (g : Frame) : Row :=
  match g.last with
  | some depth => g.items.add depth
  | none => g.items

/-- The depth of what has been read. -/
def inside (g : Frame) : Nat := (g.branches.add g.branch.nesting).nesting

/-- The depth of the group. -/
def nesting (g : Frame) : Nat := g.inside + 1

/-- The group with one more item of the given depth. -/
def add (g : Frame) (depth : Nat) : Frame := { g with items := g.branch, last := some depth }

/-- The group with its last item repeated, if it can be. -/
def repeat? (g : Frame) : Option Frame :=
  g.last.map fun depth => { g with last := some (depth + 1) }

/-- The group behind a bar. -/
def alternate (g : Frame) : Frame :=
  { g with branches := g.branches.add g.branch.nesting, items := .empty, last := none }

/-- The group with other flags from here on. -/
def setFlags (g : Frame) (flags : Flags) : Frame :=
  { g with flags := flags, items := g.branch.add 0, last := none }

end Frame

/-- The place that has been reached in a pattern. -/
structure Place where
  /-- The innermost group that is open. -/
  here : Frame
  /-- The groups around it, innermost first. -/
  outer : List Frame
  /-- The names of groups so far. -/
  names : List (List Char)

namespace Place

/-- The front of a pattern. -/
def front : Place := ⟨.opened .standard, [], []⟩

/-- The place at the front of a group. -/
def enter (p : Place) (flags : Flags) : Place :=
  { p with here := .opened flags, outer := p.here :: p.outer }

/-- Enters a group with a name, which no other group may have. -/
def enterNamed? (p : Place) (text : List Char) : Option (Place × List Char) :=
  let name := text.takeWhile (· ≠ '>')
  match text.dropWhile (· ≠ '>') with
  | '>' :: rest =>
    if isName name ∧ ¬p.names.contains name then
      some ({ p.enter p.here.flags with names := name :: p.names }, rest)
    else none
  | _ => none

/-- Sets flags up to the end of the group, or for a group of their own. -/
def setFlags? (p : Place) (text : List Char) : Option (Place × List Char) :=
  let isMark (c : Char) : Bool := c ≠ ':' && c ≠ ')'
  let marks := text.takeWhile isMark
  let flags := p.here.flags.set marks
  if areFlags marks then
    match text.dropWhile isMark with
    | ':' :: rest => some (p.enter flags, rest)
    | ')' :: rest =>
      if marks.isEmpty then none else some ({ p with here := p.here.setFlags flags }, rest)
    | _ => none
  else none

/-- Enters a group behind its opening parenthesis. -/
def enter? (p : Place) (text : List Char) : Option (Place × List Char) :=
  match p.here.flags.next text with
  | '?' :: 'P' :: '<' :: rest | '?' :: '<' :: rest => p.enterNamed? rest
  | '?' :: rest => p.setFlags? rest
  | rest => some (p.enter p.here.flags, rest)

/-- Leaves the innermost group. -/
def leave? (p : Place) : Option Place :=
  match p.outer with
  | parent :: outer => some { p with here := parent.add p.here.nesting, outer := outer }
  | [] => none

/-- The place behind an item of the given depth. -/
def behind (p : Place) (depth : Nat) : Place := { p with here := p.here.add depth }

/-- Reads an escape behind its backslash. -/
def escaped? (p : Place) (text : List Char) : Option (Place × List Char) :=
  match escape? p.here.flags text with
  | some (.character _, rest) => if p.here.flags.tellsCase then some (p.behind 0, rest) else none
  | some (.kind, rest) | some (.border, rest) => some (p.behind 0, rest)
  | none => none

/-- Reads a character that stands for itself or for something simple. Without Unicode a point would
stand for bytes beyond ASCII. -/
def simple? (p : Place) (c : Char) : Option Place :=
  let fits :=
    if c = '^' ∨ c = '$' then true
    else if c = '.' then p.here.flags.unicode
    else p.here.flags.tellsCase
  if fits then some (p.behind 0) else none

/-- Reads one item that begins with the character; none if the pattern is malformed there. -/
def step? (p : Place) (c : Char) (rest : List Char) : Option (Place × List Char) :=
  match c with
  | '(' => p.enter? rest
  | ')' => p.leave?.map fun p => (p, rest)
  | '|' => some ({ p with here := p.here.alternate }, rest)
  | '[' => (Class.read? p.here.flags rest).map fun (depth, rest) => (p.behind depth, rest)
  | '\\' => p.escaped? rest
  | '{' => none
  | '*' | '+' | '?' =>
    -- A question mark behind an operator makes it prefer fewer repetitions.
    p.here.repeat?.map fun here =>
      ({ p with here := here }, if rest.head? = some '?' then rest.drop 1 else rest)
  | c => (p.simple? c).map fun p => (p, rest)

/-- The text from the place on is well-formed. -/
def accepts : Nat → Place → List Char → Bool
  | 0, _, _ => false
  | fuel + 1, p, text =>
    match p.here.flags.next text with
    | [] => p.outer.isEmpty && p.here.inside ≤ deepest
    | c :: rest =>
      match p.step? c rest with
      | some (p, rest) => accepts fuel p rest
      | none => false

end Place

/-- The text is a regular expression. Each item takes a character. -/
def isWellFormed (text : String) : Bool := Place.front.accepts (text.length + 1) text.toList

example : ["", "a|b", "(?s)x*?", "[]a-z-]+", "(?P<n>.)a", "a||b", "()*", "(?i-u)\\w", "(?i).*"].all
    isWellFormed := by decide +kernel

example : ["*(", "(", ")", "[", "a|*", "(?m)*", "[z-a]", "x\x7b2", "\\1", "(?i)a", "\\d", "(?)"].all
    (!isWellFormed ·) := by decide +kernel

end Brainfuck.Log.Pattern
