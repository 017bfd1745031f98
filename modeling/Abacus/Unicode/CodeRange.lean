/-!
# Classes of characters given by ranges of code points

A class of characters is listed as its maximal ranges of code points, in ascending order. A
`CodeRange` holds both of its ends, and `inRanges` decides whether a character lies in one of
the listed ranges.
-/

namespace Abacus.Unicode

/-- The code points from `first` to `last`, both included. -/
structure CodeRange where
  first : Nat
  last : Nat

/-- The code point `n` lies in the range. -/
def CodeRange.contains (r : CodeRange) (n : Nat) : Bool :=
  Nat.ble r.first n && Nat.ble n r.last

/-- The code point of `c` lies in one of the ranges. -/
def inRanges (ranges : List CodeRange) (c : Char) : Bool :=
  ranges.any fun r => r.contains c.toNat

end Abacus.Unicode
