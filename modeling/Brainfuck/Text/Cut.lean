/-!
# Cuts at byte offsets

Pieces of a text whose ends are given in bytes of its UTF-8 form. An offset inside a character is
no place to cut.
-/

namespace Brainfuck.Text

/-- How many bytes the text takes. -/
def byteSize : List Char → Nat
  | [] => 0
  | c :: rest => c.utf8Size + byteSize rest

/-- Splits the text behind so many bytes; none if there is no character's end. -/
def splitAt? : Nat → List Char → Option (List Char × List Char)
  | 0, text => some ([], text)
  | _ + 1, [] => none
  | n + 1, c :: rest =>
    if c.utf8Size ≤ n + 1 then
      (splitAt? (n + 1 - c.utf8Size) rest).map fun (front, back) => (c :: front, back)
    else none

/-- The piece of the text between two offsets. -/
def cut? (start stop : Nat) (text : List Char) : Option (List Char) := do
  let (_, back) ← splitAt? start text
  let (piece, _) ← splitAt? (stop - start) back
  return piece

example : cut? 1 3 "aéb".toList = some ['é'] ∧ cut? 0 2 "aéb".toList = none := by decide +kernel

end Brainfuck.Text
