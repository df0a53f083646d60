import Brainfuck.Log.Pattern.Escape
import Brainfuck.Log.Pattern.Nesting

/-!
# Classes of patterns

A class is written in brackets: characters, ranges, escapes, classes with names and further classes,
with `&&`, `--` and `~~` between the sides of an operation. A dash in front, and a closing bracket
before anything else, stand for themselves.

No theorem depends on these definitions (see `Log.Pattern`).
-/

namespace Brainfuck.Log.Pattern.Class

/-- Reads a character of a class, which is told, or an escape for many. -/
def item? (f : Flags) : List Char → Option (Option Char × List Char)
  | [] => none
  | '\\' :: rest =>
    match escape? f rest with
    | some (.character c, rest) => if f.admits c then some (some c, rest) else none
    | some (.kind, rest) => some (none, rest)
    | some (.border, _) | none => none
  | c :: rest => if f.admits c then some (some c, rest) else none

/-- What is seen behind a dash: the next character that is no blank, even in a comment. -/
def glimpse (f : Flags) (text : List Char) : Option Char :=
  if f.spaced then
    match text.dropWhile Text.isBlank with
    | '#' :: rest => (rest.dropWhile Text.isBlank).head?
    | rest => rest.head?
  else text.head?

/-- Reads an item of a class or a range, whose ends are characters that ascend. A dash in front of
the closing bracket or of another dash makes no range. -/
def range? (f : Flags) (text : List Char) : Option (List Char) := do
  let (first, behind) ← item? f text
  match f.next behind with
  | '-' :: more =>
    if glimpse f more = some ']' ∨ glimpse f more = some '-' then some behind
    else
      let (last, rest) ← item? f (f.next more)
      if (← first) ≤ (← last) then some rest else none
  | rest => some rest

/-- The names of classes. -/
def names : List String :=
  ["alnum", "alpha", "ascii", "blank", "cntrl", "digit", "graph", "lower", "print", "punct",
    "space", "upper", "word", "xdigit"]

/-- Reads a class with a name behind its opening bracket, and tells whether it is negated. -/
def named? : List Char → Option (Bool × List Char)
  | ':' :: text =>
    let negated := text.head? = some '^'
    let text := if negated then text.drop 1 else text
    match text.dropWhile (· ≠ ':') with
    | ':' :: ']' :: rest =>
      if names.contains (String.ofList (text.takeWhile (· ≠ ':'))) then some (negated, rest)
      else none
    | _ => none
  | _ => none

/-- Reads the mark of negation, if it is there, behind an opening bracket. Without Unicode a class
cannot be negated, since bytes beyond ASCII would be in it. -/
def negation? (f : Flags) (text : List Char) : Option (List Char) :=
  match f.next text with
  | '^' :: rest => if f.unicode then some rest else none
  | rest => some rest

/-- What has been read of a class that is open. -/
structure Frame where
  /-- There has been nothing but dashes. -/
  atFront : Bool
  /-- The items since the bracket or the last operator. -/
  items : Row
  /-- The depth of the left side of the last operator. -/
  left : Option Nat
  deriving DecidableEq, Repr

namespace Frame

/-- A class of which nothing has been read. -/
def opened : Frame := ⟨true, .empty, none⟩

/-- The class with a dash in front. -/
def addDash (c : Frame) : Frame := { c with items := c.items.add 0 }

/-- The class with one more item of the given depth. -/
def add (c : Frame) (depth : Nat) : Frame := { c with atFront := false, items := c.items.add depth }

/-- The depth of what has been read. -/
def inside (c : Frame) : Nat :=
  match c.left with
  | none => c.items.nesting
  | some left => max left c.items.nesting + 1

/-- The class behind an operator. -/
def operate (c : Frame) : Frame := ⟨false, .empty, some c.inside⟩

/-- The depth of the class. -/
def nesting (c : Frame) : Nat := c.inside + 1

end Frame

/-- Reads the rest of a class, with those that are open around it, and tells its depth. -/
def rest? (f : Flags) : Nat → Frame → List Frame → List Char → Option (Nat × List Char)
  | 0, _, _, _ => none
  | fuel + 1, here, outer, text =>
    match f.next text with
    | [] => none
    | ']' :: rest =>
      if here = .opened then
        if f.tellsCase then rest? f fuel (here.add 0) outer rest else none
      else
        match outer with
        | [] => some (here.nesting, rest)
        | parent :: outer => rest? f fuel (parent.add here.nesting) outer rest
    | '[' :: rest =>
      match named? rest with
      | some (negated, rest) =>
        if f.tellsCase ∧ (f.unicode ∨ ¬negated) then rest? f fuel (here.add 0) outer rest else none
      | none => (negation? f rest).bind (rest? f fuel .opened (here :: outer))
    | '&' :: '&' :: rest | '~' :: '~' :: rest => rest? f fuel here.operate outer rest
    | '-' :: rest =>
      if here.atFront then if f.tellsCase then rest? f fuel here.addDash outer rest else none
      else if rest.head? = some '-' then rest? f fuel here.operate outer (rest.drop 1)
      else (range? f ('-' :: rest)).bind (rest? f fuel (here.add 0) outer)
    | text => (range? f text).bind (rest? f fuel (here.add 0) outer)

/-- Reads a class behind its opening bracket, and tells its depth. Each item takes a character, so
there are no more of them than there are characters. -/
def read? (f : Flags) (text : List Char) : Option (Nat × List Char) :=
  (negation? f text).bind (rest? f (text.length + 1) .opened [])

example : read? .standard "]a-z-]x".toList = some (2, ['x'])
    ∧ read? .standard "a&&[^[:alpha:]]]".toList = some (3, [])
    ∧ read? .standard "--z]".toList = some (2, []) ∧ read? .standard "z-a]".toList = none
    ∧ read? .standard "]".toList = none := by decide +kernel

end Brainfuck.Log.Pattern.Class
