import Abacus.Binary64.Nearest

/-!
# The shortest decimal of a binary64 number

`shortest code` is a decimal number with as few significant digits as any that rounds to the
number of the code, and nearest to that number among these. Every binary64 number is a
multiple of `10 ^ -1074`, so the search runs over grids of such multiples, from the coarsest
to the finest: the first grid on which one of the two neighbours of the number rounds to it
has the fewest digits.
-/

namespace Abacus.Binary64

/-- The places at which every binary64 number is exact. -/
def exactPlaces : Nat := 1074

/-- The number of a finite code, as a multiple of `10 ^ -1074`. -/
def exactUnits (code : Nat) : Nat :=
  quanta code * Nat.pow 5 exactPlaces

/-- The multiple `units` of `10 ^ -1074` rounds to the number of the code. -/
def roundsTo (code units : Nat) : Bool :=
  nearestCode units (Nat.pow 10 exactPlaces) == code

/-- The neighbour of the number on the grid of the multiples of `grid` that rounds to it. If
both do, it is the nearer one, and of two equally near ones the greater. -/
def neighbour? (code exact grid : Nat) : Option Nat :=
  let low := exact / grid * grid
  let high := low + grid
  if roundsTo code low then
    some (if roundsTo code high ∧ high - exact ≤ exact - low then high else low)
  else if roundsTo code high then some high
  else none

/-- The neighbour on the coarsest grid that has one, of the grids from `10 ^ n` to `10`, or else the
number itself. -/
def search (code exact n : Nat) : Nat :=
  let found? := (List.range n).reverse.findSome? fun k =>
    neighbour? code exact (Nat.pow 10 (k + 1))
  found?.getD exact

/-- The shortest decimal number that rounds to the number of the code. -/
def shortest (code : Nat) : Decimal :=
  let exact := exactUnits code
  ⟨search code exact (Nat.toDigits 10 exact).length, exactPlaces⟩

end Abacus.Binary64
