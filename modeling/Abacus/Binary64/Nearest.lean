import Abacus.Decimal

/-!
# Rounding to binary64

Without its sign, a binary64 number is a code of 63 bits: eleven bits of exponent above
fifty-two of fraction. The finite codes lie below `infinityCode`, and the number of a finite
code is the multiple `quanta code` of `2 ^ -1074`, the least positive number of the format.
`nearestCode` rounds a fraction to the nearest number, and of two equally near ones to the
one with an even code; a fraction too large for the format goes to `infinityCode` or above.
-/

namespace Abacus.Binary64

/-- The weight of the exponent in a code, above the fifty-two bits of the fraction. -/
def exponentUnit : Nat := Nat.pow 2 52

/-- The code of infinity, right above the finite codes. -/
def infinityCode : Nat := 2047 * exponentUnit

/-- The number of a finite code, as a multiple of `2 ^ -1074`. -/
def quanta (code : Nat) : Nat :=
  let exponent := code / exponentUnit
  let fraction := code % exponentUnit
  if exponent = 0 then fraction else (exponentUnit + fraction) * Nat.pow 2 (exponent - 1)

/-- The integer nearest to `num / den`, the even one of two. -/
def divNearest (num den : Nat) : Nat :=
  let quotient := num / den
  let twice := 2 * (num % den)
  if twice < den then quotient
  else if den < twice then quotient + 1
  else quotient + quotient % 2

/-- The code of the number nearest to `num / den`, the even code of two. The significand has
fifty-three bits, or fewer where its unit would be less than `2 ^ -1074`. -/
def nearestCode (num den : Nat) : Nat :=
  let scaled := num * Nat.pow 2 1074
  let shift := (scaled / den).log2 - 52
  shift * exponentUnit + divNearest scaled (den * Nat.pow 2 shift)

/-- The code of the number nearest to a decimal number, `none` if that is too large. -/
def ofDecimal? (d : Decimal) : Option Nat :=
  let code := nearestCode d.units (Nat.pow 10 d.places)
  if code < infinityCode then some code else none

end Abacus.Binary64
