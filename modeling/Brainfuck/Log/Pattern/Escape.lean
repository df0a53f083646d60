import Brainfuck.Text.Blank

/-!
# Flags and escapes of patterns

What a flag allows, and what a backslash stands for. Classes and letter cases are known for ASCII
only: with Unicode on, no escape stands for a class of characters or for the border of a word, and
no character can be meant in either case.

No theorem depends on these definitions (see `Log.Pattern`).
-/

namespace Brainfuck.Log.Pattern

/-- The flags that bear on what may be written. -/
structure Flags where
  /-- Characters of all scripts are meant, not bytes. -/
  unicode : Bool
  /-- Letters are meant in either case. -/
  caseless : Bool
  /-- Blanks and comments may be put between items. -/
  spaced : Bool
  deriving DecidableEq, Repr

namespace Flags

/-- The flags at the front of a pattern. -/
def standard : Flags := ⟨true, false, false⟩

/-- A character can be meant: its other case is either not asked for or known. -/
def tellsCase (f : Flags) : Bool := !(f.unicode && f.caseless)

/-- The character can stand in a class. Without Unicode a class is one of bytes, of which those
beyond ASCII are no characters. -/
def admits (f : Flags) (c : Char) : Bool := f.tellsCase && (f.unicode || c.toNat < 128)

end Flags

/-- The text without the blanks and comments in front, where `inComment` tells whether a comment has
begun. -/
def skipBlanks (inComment : Bool) : List Char → List Char
  | [] => []
  | c :: rest =>
    if inComment then skipBlanks (c ≠ '\n') rest
    else if c = '#' then skipBlanks true rest
    else if Text.isBlank c then skipBlanks false rest
    else c :: rest

/-- What comes next. -/
def Flags.next (f : Flags) (text : List Char) : List Char :=
  if f.spaced then skipBlanks false text else text

/-- What a backslash and the characters behind it mean. -/
inductive Escape
  | character (c : Char)
  /-- One of many characters. -/
  | kind
  /-- A place between two characters. -/
  | border
  deriving DecidableEq, Repr

/-- The value of a hexadecimal digit, in either letter case. -/
def hexValue? (c : Char) : Option Nat :=
  "0123456789abcdef".toList.findIdx? (· == c.toLower)

/-- Reads the number of a character, of which so many digits are to come and `value` is what those
in front make. -/
def numbered? (f : Flags) : Nat → Nat → List Char → Option (Char × List Char)
  | 0, value, text => if value.isValidChar then some (Char.ofNat value, text) else none
  | digits + 1, value, text =>
    match f.next text with
    | [] => none
    | c :: rest => (hexValue? c).bind fun digit => numbered? f digits (16 * value + digit) rest

/-- The control characters with letters of their own. -/
def controls : List (Char × Char) :=
  [('a', '\x07'), ('f', '\x0c'), ('t', '\t'), ('n', '\n'), ('r', '\r'), ('v', '\x0b')]

/-- The character stands for itself behind a backslash. -/
def isPlain (c : Char) : Bool := c.toNat < 128 && !c.isAlphanum && c != '<' && c != '>'

/-- Reads an escape behind its backslash. Two digits number a byte where Unicode is off. -/
def escape? (f : Flags) : List Char → Option (Escape × List Char)
  | [] => none
  | 'x' :: rest => do
    let (c, rest) ← numbered? f 2 0 rest
    if f.unicode ∨ c.toNat < 128 then some (.character c, rest) else none
  | 'u' :: rest => (numbered? f 4 0 rest).map fun (c, rest) => (.character c, rest)
  | 'U' :: rest => (numbered? f 8 0 rest).map fun (c, rest) => (.character c, rest)
  | c :: rest =>
    if "Az".toList.contains c then some (.border, rest)
    else if "bB<>".toList.contains c then if f.unicode then none else some (.border, rest)
    else if "dsw".toList.contains c then if f.unicode then none else some (.kind, rest)
    else if isPlain c then some (.character c, rest)
    else (controls.lookup c).map fun control => (.character control, rest)

example : escape? .standard "x41b".toList = some (.character 'A', ['b'])
    ∧ escape? .standard ".".toList = some (.character '.', [])
    ∧ escape? .standard "uD800".toList = none ∧ escape? .standard "d".toList = none := by
  decide +kernel

end Brainfuck.Log.Pattern
