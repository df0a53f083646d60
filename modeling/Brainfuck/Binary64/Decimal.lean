import Brainfuck.Binary64
import Brainfuck.Text.Numeral

/-!
# Numbers as decimal text

`Binary64.ofText?` reads a decimal number, with or without a point and an exponent, and rounds it to
the nearest number. `Binary64.text` writes the fewest digits that are read back as the number, and
of those the nearest to it, always without an exponent.
-/

namespace Brainfuck.Binary64

open Text (digitsValue)

/-! ## Reading -/

/-- The sign in front of a text, if there is one, and what follows. -/
def splitSign : List Char → Bool × List Char
  | '-' :: rest => (true, rest)
  | '+' :: rest => (false, rest)
  | rest => (false, rest)

/-- The exponent that ends a number; none if what follows the digits is no exponent. -/
def exponent? : List Char → Option Int
  | [] => some 0
  | mark :: rest =>
    if mark = 'e' ∨ mark = 'E' then
      let (negative, digits) := splitSign rest
      if digits.isEmpty ∨ ¬digits.all Char.isDigit then none
      else some (if negative then -digitsValue digits else digitsValue digits)
    else none

/-- The digits in front of the point, those behind it, and what follows. -/
def splitPoint (text : List Char) : List Char × List Char × List Char :=
  let whole := text.takeWhile Char.isDigit
  match text.dropWhile Char.isDigit with
  | '.' :: rest => (whole, rest.takeWhile Char.isDigit, rest.dropWhile Char.isDigit)
  | rest => (whole, [], rest)

/-- A power of ten beyond which every number is infinite, and below whose inverse every number is
zero. -/
def decimalRange : Int := 400

/-- The number nearest to `value * 10 ^ exponent`, where `value` has `length` digits. -/
def ofDecimal (negative : Bool) (value length : Nat) (exponent : Int) : Binary64 :=
  if value = 0 ∨ length + exponent < -decimalRange then ofQuotient negative 0 1
  else if decimalRange < length + exponent then infinite negative
  else if 0 ≤ exponent then ofQuotient negative (value * Nat.pow 10 exponent.toNat) 1
  else ofQuotient negative value (Nat.pow 10 (-exponent).toNat)

/-- Reads a number without its sign. -/
def ofUnsigned? (negative : Bool) (text : List Char) : Option Binary64 :=
  let word := String.ofList (text.map Char.toLower)
  if word = "inf" ∨ word = "infinity" then some (infinite negative)
  else if word = "nan" then some nan
  else
    let (whole, fraction, rest) := splitPoint text
    let digits := (whole ++ fraction).dropWhile (· = '0')
    if whole.isEmpty ∧ fraction.isEmpty then none
    else (exponent? rest).map fun exponent =>
      ofDecimal negative (digitsValue digits) digits.length (exponent - fraction.length)

/-- Reads a number. -/
def ofText? (text : String) : Option Binary64 :=
  let (negative, rest) := splitSign text.toList
  ofUnsigned? negative rest

/-! ## Writing -/

/-- A positive number and the ends of the interval of reals that are rounded to it, as numerators
over one denominator. -/
structure Surrounding where
  low : Nat
  value : Nat
  high : Nat
  denominator : Nat
  /-- The ends are rounded to the number as well. -/
  closed : Bool

/-- The surrounding of `mantissa * 2 ^ exponent`. The gap below a power of two is half as wide as
the one above. -/
def surrounding (mantissa : Nat) (exponent : Int) : Surrounding :=
  let gap := if mantissa = leastFull ∧ leastExponent < exponent then 1 else 2
  let scale := Nat.pow 2 (exponent - 2).toNat
  ⟨(4 * mantissa - gap) * scale, 4 * mantissa * scale, (4 * mantissa + 2) * scale,
    Nat.pow 2 (2 - exponent).toNat, mantissa % 2 = 0⟩

namespace Surrounding

/-- The surrounding measured in units of `10 ^ tens`. -/
def inUnits (s : Surrounding) (tens : Int) : Surrounding :=
  let scale := Nat.pow 10 (-tens).toNat
  ⟨s.low * scale, s.value * scale, s.high * scale, s.denominator * Nat.pow 10 tens.toNat, s.closed⟩

/-- The natural number is rounded to the value. -/
def contains (s : Surrounding) (n : Nat) : Bool :=
  let n := n * s.denominator
  (s.low < n && n < s.high) || (s.closed && (n == s.low || n == s.high))

/-- The natural number nearest to the value that is rounded to it; of two, the greater. -/
def nearest? (s : Surrounding) : Option Nat :=
  let below := s.value / s.denominator
  let above := below + 1
  if s.contains below then
    if s.contains above ∧ (below + above) * s.denominator ≤ 2 * s.value then some above
    else some below
  else if s.contains above then some above
  else none

/-- The least power of ten that is greater than the value, whose binary logarithm is about
`bits`. -/
def magnitude (s : Surrounding) (bits : Int) : Int :=
  let guess := bits * 30103 / 100000
  let isAbove (tens : Int) : Bool := (s.inUnits tens).value < (s.inUnits tens).denominator
  (([-1, 0, 1].map (guess + ·)).find? isAbove).getD (guess + 2)

end Surrounding

/-- The greatest number of digits that is ever needed. -/
def mostDigits : Nat := 17

/-- The shortest decimal that is read back as `mantissa * 2 ^ exponent`, which is not zero, as its
digits and the power of ten of the last of them. -/
def shortest (mantissa : Nat) (exponent : Int) : Nat × Int :=
  let s := surrounding mantissa exponent
  let top := s.magnitude (mantissa.log2 + exponent)
  let found := (List.range mostDigits).findSome? fun (n : Nat) =>
    let tens : Int := top - (n + 1)
    (s.inUnits tens).nearest?.map fun digits => (digits, tens)
  -- Seventeen digits always do; the exact value stands in for the proof of that.
  found.getD (mantissa * Nat.pow 2 exponent.toNat * Nat.pow 5 (-exponent).toNat, min exponent 0)

/-- The decimal `digits * 10 ^ tens`, without an exponent and without needless zeros. -/
def positional (digits : Nat) (tens : Int) : String :=
  let all := (toString digits).toList
  let row := (all.reverse.dropWhile (· = '0')).reverse
  let tens := tens + (all.length - row.length : Nat)
  if 0 ≤ tens then String.ofList (row ++ List.replicate tens.toNat '0')
  else
    let places := (-tens).toNat
    let padded := List.replicate (places + 1 - row.length) '0' ++ row
    let whole := padded.length - places
    String.ofList (padded.take whole ++ '.' :: padded.drop whole)

example : positional 1200 (-2) = "12" ∧ positional 5 (-3) = "0.005"
    ∧ positional 125 (-2) = "1.25" := by
  decide +kernel

/-- The number as text: the fewest digits that are read back as it. -/
def text : Binary64 → String
  | nan => "NaN"
  | infinite negative => if negative then "-inf" else "inf"
  | finite negative mantissa exponent =>
    let sign := if negative then "-" else ""
    if mantissa = 0 then sign ++ "0"
    else
      let (digits, tens) := shortest mantissa exponent
      sign ++ positional digits tens

end Brainfuck.Binary64
