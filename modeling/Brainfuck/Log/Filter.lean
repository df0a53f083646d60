import Brainfuck.Log.Directive

/-!
# Log filters

Which events are shown. A filter is a list of directives (`Directive`), of which the one that fits
an event best decides; an event that none is meant for is not shown. No event here belongs to a
span, so that directives for spans let nothing through. No theorem depends on filters (see
`Log.Directive`).
-/

namespace Brainfuck.Log

/-- Decides which events are shown. -/
structure Filter where
  directives : List Directive
  deriving DecidableEq, Repr

namespace Filter

/-- Lets through what is at least as urgent as the level. -/
def upTo (level : Level) : Filter := ⟨[⟨"", none, none, level.rank⟩]⟩

/-- Reads a filter: directives with commas between them. Where there is nothing between two commas,
there is no directive. -/
def ofText (text : String) : Reading Filter := do
  return ⟨← ((text.splitOn ",").filter (!·.isEmpty)).mapM Directive.ofText⟩

/-- The filter of a setting. Without one, or with one that is malformed, warnings and errors are let
through. -/
def ofSetting : Option String → Except Crash Filter
  | none => .ok (upTo .warn)
  | some text =>
    match ofText text with
    | .ok f => .ok f
    | .error (.reported ⟨⟩) => .ok (upTo .warn)
    | .error (.crashed crash) => .error crash

/-- The directive that decides on events with the given fields from the part with the given name: of
those meant for them the one that no other outranks, and of equals the last. -/
def deciding (name : String) (fields : List String) : List Directive → Option Directive
  | [] => none
  | d :: rest =>
    let later := deciding name fields rest
    if d.concerns name fields then
      match later with
      | some other => if d.outranks other then some d else some other
      | none => some d
    else later

/-- Whether an event is shown, where `name` is the name of the part it comes from. -/
def shows (f : Filter) (name : String) (e : Event) : Bool :=
  match deciding name e.fields f.directives with
  | some d => e.level.rank ≤ d.threshold
  | none => false

end Filter

end Brainfuck.Log
