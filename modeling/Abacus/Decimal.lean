/-!
# Decimal numbers

A `Decimal` is a natural number of units `10 ^ -places`. `Decimal.ofChars?` reads digits with
at most one dot among them, and `Decimal.write` writes the number in plain notation, without a
zero at the end of the fraction and without a dot where there is no fraction.
-/

namespace Abacus

/-- The number `units / 10 ^ places`. -/
structure Decimal where
  units : Nat
  places : Nat
  deriving DecidableEq, Repr

namespace Decimal

/-- The number denoted by digits, with at most one dot before, among or behind them. There
has to be a digit. -/
def ofChars? (chars : List Char) : Option Decimal :=
  let whole := chars.takeWhile (· != '.')
  let fraction := (chars.dropWhile (· != '.')).drop 1
  let digits := whole ++ fraction
  if digits ≠ [] ∧ digits.all Char.isDigit then
    some ⟨Nat.ofDigitChars 10 digits 0, fraction.length⟩
  else none

/-- The same number in the greatest unit that is at most one and of which it is a
multiple. -/
def normalize (units : Nat) : Nat → Decimal
  | 0 => ⟨units, 0⟩
  | places + 1 =>
    if units % 10 = 0 then normalize (units / 10) places else ⟨units, places + 1⟩

/-- The number in plain notation, with all of its places. -/
def writePlaces (d : Decimal) : String :=
  let whole := Nat.toDigits 10 (d.units / Nat.pow 10 d.places)
  let fraction := List.leftpad d.places '0' (Nat.toDigits 10 (d.units % Nat.pow 10 d.places))
  String.ofList (if d.places = 0 then whole else whole ++ '.' :: fraction)

/-- The number in plain notation, with no more places than it needs. -/
def write (d : Decimal) : String :=
  (normalize d.units d.places).writePlaces

end Decimal

end Abacus
