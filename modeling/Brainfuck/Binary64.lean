/-!
# Binary floating point numbers of 64 bits

A number is held exactly, as a sign and `mantissa * 2 ^ exponent`. Quotients of natural numbers are
rounded to the nearest number, and of two that are equally near, to the one with an even mantissa.
-/

namespace Brainfuck

/-- A binary floating point number of 64 bits. -/
inductive Binary64
  | nan
  | infinite (negative : Bool)
  /-- The number is `mantissa * 2 ^ exponent`, or its negative. -/
  | finite (negative : Bool) (mantissa : Nat) (exponent : Int)
  deriving DecidableEq, Repr

/-- The natural number nearest to `num / den`; of two equally near, the even one. -/
def nearestEven (num den : Nat) : Nat :=
  let quotient := num / den
  let remainder := num % den
  if 2 * remainder < den then quotient
  else if den < 2 * remainder then quotient + 1
  else quotient + quotient % 2

example : nearestEven 5 2 = 2 ∧ nearestEven 7 2 = 4 ∧ nearestEven 8 3 = 3 := by decide

namespace Binary64

/-- The least mantissa that has all of its 53 bits. -/
def leastFull : Nat := 4503599627370496

/-- The exponent of the numbers nearest to zero. -/
def leastExponent : Int := -1074

/-- The exponent of the numbers farthest from zero. -/
def greatestExponent : Int := 971

/-- The quotient `num / (den * 2 ^ exponent)`, as numerator and denominator. -/
def scaled (num den : Nat) (exponent : Int) : Nat × Nat :=
  if 0 ≤ exponent then (num, den <<< exponent.toNat) else (num <<< (-exponent).toNat, den)

/-- The exponent at which the mantissa of `num / den` has all its bits, if there is one. -/
def exponentOf (num den : Nat) : Int :=
  let guess : Int := (num.log2 : Int) - den.log2 - leastFull.log2
  let (n, d) := scaled num den guess
  let exponent := if n / d < leastFull then guess - 1 else guess
  max leastExponent exponent

/-- The number nearest to `num / den`, or to its negative. -/
def ofQuotient (negative : Bool) (num den : Nat) : Binary64 :=
  if num = 0 then finite negative 0 leastExponent
  else
    let exponent := exponentOf num den
    let (n, d) := scaled num den exponent
    let mantissa := nearestEven n d
    let (mantissa, exponent) :=
      if mantissa = 2 * leastFull then (leastFull, exponent + 1)
      else (mantissa, exponent)
    if greatestExponent < exponent then infinite negative
    else finite negative mantissa exponent

example : ofQuotient false 1 1 = finite false leastFull (-52) := by decide +kernel

example : ofQuotient true 1 3 = finite true 6004799503160661 (-54) := by decide +kernel

example : ofQuotient false (1 <<< 1024) 1 = infinite false := by decide +kernel

/-- The number times `factor`, rounded to a natural number; none if the number is below zero or
not finite. -/
def times? (factor : Nat) : Binary64 → Option Nat
  | nan => none
  | infinite _ => none
  | finite negative mantissa exponent =>
    if negative ∧ mantissa ≠ 0 then none
    else
      let (n, d) := scaled (mantissa * factor) 1 (-exponent)
      some (nearestEven n d)

end Binary64

end Brainfuck
