/-!
# Numerals

Whole numbers written in decimal digits.
-/

namespace Brainfuck.Text

/-- The value of a row of digits. -/
def digitsValue (digits : List Char) : Nat :=
  digits.foldl (fun value c => 10 * value + (c.toNat - '0'.toNat)) 0

/-- The greatest number that fits into a 64-bit word. -/
def greatestWord : Nat := 18446744073709551615

/-- Reads a number that fits into a 64-bit word: digits, with or without a plus sign. -/
def readWord? (text : String) : Option Nat :=
  let digits := match text.toList with
    | '+' :: rest => rest
    | cs => cs
  if digits.isEmpty ∨ ¬digits.all Char.isDigit then none
  else
    let value := digitsValue digits
    if value ≤ greatestWord then some value else none

example : readWord? "+007" = some 7 ∧ readWord? "" = none ∧ readWord? "+" = none
    ∧ readWord? "18446744073709551616" = none := by decide +kernel

end Brainfuck.Text
