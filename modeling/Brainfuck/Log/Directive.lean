import Brainfuck.Binary64.Decimal
import Brainfuck.Error
import Brainfuck.Log
import Brainfuck.Log.Pattern
import Brainfuck.Text.Cut
import Brainfuck.Text.Numeral

/-!
# Directives of a log filter

A directive is written `target[span{field=value}]=level`, where each part but one may be left out,
or as a level alone. It is read character by character (`Draft.take`); what it says is cut out of
the text as soon as the end of a part is reached.

Blanks around a directive do not count when its parts are looked for, yet the parts are cut out at
the same distance from the front of the text as it was given. Blanks in front thus shift every part,
and a cut may even fall inside a character, which is a crash.

The reading of filters follows the documented behaviour of a library that is not part of the
program. It belongs to the outer layer: no theorem depends on it.
-/

namespace Brainfuck.Log

/-- The events that are let through: those whose level has at most this rank. -/
abbrev Threshold := Nat

/-- Lets everything through. -/
def everything : Threshold := Level.trace.rank

/-- The threshold with the given number, or the name in any case. -/
def threshold? (text : String) : Option Threshold :=
  match Text.readWord? text with
  | some n => if n ≤ everything then some n else none
  | none =>
    match text.toLower with
    | "off" => some 0
    | "error" => some Level.error.rank
    | "warn" => some Level.warn.rank
    | "info" => some Level.info.rank
    | "debug" => some Level.debug.rank
    | "trace" => some Level.trace.rank
    | _ => none

example : threshold? "Debug" = some 4 ∧ threshold? "+04" = some 4 ∧ threshold? "6" = none := by
  decide +kernel

/-- Asks for a field. -/
structure FieldTest where
  name : String
  /-- The field must also have a certain value. -/
  hasValue : Bool
  deriving DecidableEq, Repr

/-- The text is a value that a field can be asked for: a number or a pattern. -/
def isValue (text : String) : Bool := (Binary64.ofText? text).isSome || Pattern.isWellFormed text

/-- Reads what is asked of a field: its name, and its value behind an equals sign. -/
def FieldTest.ofText? (text : String) : Option FieldTest :=
  match text.splitOn "=" with
  | [] | [""] => none
  | [name] => some ⟨name, false⟩
  | name :: value :: _ => if isValue value then some ⟨name, true⟩ else none

/-- Says what is let through, and what it is meant for. -/
structure Directive where
  /-- The front of the names of the parts it is meant for; the empty text is meant for all. -/
  target : String
  /-- The span that events must belong to. -/
  span : Option String
  field : Option FieldTest
  threshold : Threshold
  deriving DecidableEq, Repr

/-- A text is no directive. -/
structure Malformed where
  deriving DecidableEq, Repr

/-- The answer of a reader of directives. -/
abbrev Reading := Except (Failure Malformed)

/-- The answer to a text that is no directive. -/
def malformed {α : Type} : Reading α := .error (.reported ⟨⟩)

/-- The answer to a part that may be no good. -/
def orMalformed {α : Type} : Option α → Reading α
  | some a => .ok a
  | none => malformed

/-- The part of the text between two offsets. -/
def part (text : List Char) (start stop : Nat) : Reading String :=
  match Text.cut? start stop text with
  | some piece => .ok (String.ofList piece)
  | none => .error (.crashed .splitCharacter)

/-- Where the reader of a directive is; of a part that it is in, the offset at which it starts. -/
inductive Stage
  | front
  /-- In a target, or in a level that stands alone. -/
  | word
  | span (start : Nat)
  | field (start : Nat)
  | behindField
  /-- Behind the closing bracket. -/
  | behindSpan
  | level (start : Nat)
  deriving DecidableEq, Repr

/-- What has been read of a directive. -/
structure Draft where
  stage : Stage
  target : String
  span : Option String
  field : Option FieldTest

namespace Draft

/-- Nothing has been read. -/
def blank : Draft := ⟨.front, "", none, none⟩

/-- The character can start a target. -/
def startsTarget (c : Char) : Bool := Text.isAlphanumeric c || c = '-' || c = ':' || c = '_'

/-- Takes the character at the given offset, where `text` is what the parts are cut out of. -/
def take (text : List Char) (d : Draft) (offset : Nat) (c : Char) : Reading Draft :=
  match d.stage with
  | .front =>
    if c = '[' then .ok { d with stage := .span (offset + 1) }
    else if startsTarget c then .ok { d with stage := .word }
    else malformed
  | .word =>
    if c = '=' then do
      return { d with target := ← part text 0 offset, stage := .level (offset + 1) }
    else if c = '[' then do
      return { d with target := ← part text 0 offset, stage := .span (offset + 1) }
    else .ok d
  | .span start =>
    if c = ']' then do
      return { d with span := some (← part text start offset), stage := .behindSpan }
    else if c = '\x7b' then do
      let name ← part text start offset
      let span := if name.isEmpty then none else some name
      return { d with span := span, stage := .field (offset + 1) }
    else .ok d
  | .field start =>
    if c = '\x7d' then do
      let test ← orMalformed (FieldTest.ofText? (← part text start offset))
      return { d with field := some test, stage := .behindField }
    else .ok d
  | .behindField => if c = ']' then .ok { d with stage := .behindSpan } else malformed
  | .behindSpan => if c = '=' then .ok { d with stage := .level (offset + 1) } else malformed
  | .level _ => .ok d

/-- Takes characters one after the other, the first at the given offset. -/
def takeAll (text : List Char) (d : Draft) (offset : Nat) : List Char → Reading Draft
  | [] => .ok d
  | c :: rest => do (← d.take text offset c).takeAll text (offset + c.utf8Size) rest

/-- The directive when there are no more characters. Without a level it lets everything through. -/
def finish (text : List Char) (d : Draft) : Reading Directive :=
  match d.stage with
  | .word =>
    let word := String.ofList text
    match threshold? word with
    | some threshold => .ok ⟨"", none, none, threshold⟩
    | none => .ok ⟨word, none, none, everything⟩
  | .behindSpan => .ok ⟨d.target, d.span, d.field, everything⟩
  | .level start => do
    let level ← part text start (Text.byteSize text)
    let threshold ← if level.isEmpty then .ok everything else orMalformed (threshold? level)
    return ⟨d.target, d.span, d.field, threshold⟩
  | .front | .span _ | .field _ | .behindField => malformed

end Draft

namespace Directive

/-- Reads a directive. -/
def ofText (text : String) : Reading Directive := do
  let text := text.toList
  (← Draft.blank.takeAll text 0 (Text.trim text)).finish text

/-- The directive can be meant for events that belong to no span. A value is looked for in spans
alone. -/
def spanless (d : Directive) : Bool :=
  d.span.isNone && (d.field.map fun test => !test.hasValue).getD true

/-- The directive is meant for events with these fields from the part with this name, if they belong
to no span. -/
def concerns (d : Directive) (name : String) (fields : List String) : Bool :=
  d.spanless && d.target.isPrefixOf name
    && (d.field.map fun test => fields.contains test.name).getD true

/-- The directive goes before another one that is meant for the same event: its target is longer, or
the targets are equal and it asks for a field where the other asks for none or for one that comes
earlier in the alphabet. -/
def outranks (d other : Directive) : Bool :=
  other.target.length < d.target.length
    || (other.target.length == d.target.length
      && match other.field, d.field with
        | _, none => false
        | none, some _ => true
        | some theirs, some ours => theirs.name < ours.name)

end Directive

end Brainfuck.Log
