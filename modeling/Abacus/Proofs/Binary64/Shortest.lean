import Mathlib
import Abacus.Binary64.Shortest
import Abacus.Proofs.Binary64.Nearest

/-!
# The shortest decimal is read back

On the finest grid the number of a code is exact and is rounded to itself, `roundsTo_exactUnits`,
and on any other grid the search takes nothing but multiples that are rounded to it. So the shortest
decimal of a code has that code as the nearest one, `isNearest_shortest`.
-/

namespace Abacus.Binary64

/-- The multiples of `10 ^ -1074` that are rounded to a number. -/
theorem roundsTo_iff {code units : Nat} :
  roundsTo code units ↔ IsNearest (Decimal.number ⟨units, exactPlaces⟩) code
  := by
  have hnearest := isNearest_nearestCode ⟨units, exactPlaces⟩
  rw [roundsTo, beq_iff_eq]
  constructor
  · rintro rfl
    apply hnearest
  · intro h
    apply hnearest.unique h

/-- A number is exact on the finest grid: `2 ^ -1074` is a multiple of `10 ^ -1074`. -/
theorem number_exactUnits (code : Nat) :
  Decimal.number ⟨exactUnits code, exactPlaces⟩ = magnitude code
  := by
  rw [Decimal.number, exactUnits, magnitude, exactPlaces]
  generalize 1074 = n
  have hten : (10 : ℚ) ^ n = 2 ^ n * 5 ^ n := by
    rw [← mul_pow]
    norm_num
  have hpos : (5 : ℚ) ^ n ≠ 0 := by positivity
  rw [Nat.pow_eq, Nat.cast_mul, Nat.cast_pow, Nat.cast_ofNat, hten, mul_div_mul_right _ _ hpos]

theorem roundsTo_exactUnits (code : Nat) :
  roundsTo code (exactUnits code)
  := by
  rw [roundsTo_iff, number_exactUnits]
  apply isNearest_magnitude

theorem roundsTo_of_neighbour?_eq_some {code exact grid units : Nat}
    (h : neighbour? code exact grid = some units) :
  roundsTo code units
  := by
  dsimp only [neighbour?] at h
  split at h
  · next hlow =>
    split at h
    · next hhigh =>
      cases h
      exact hhigh.1
    · cases h
      exact hlow
  · split at h
    · next hhigh =>
      cases h
      exact hhigh
    · cases h

/-- Whatever grid the search starts from, it ends at a multiple that is rounded to the number. -/
theorem roundsTo_search {code exact : Nat} (h : roundsTo code exact) (n : Nat) :
  roundsTo code (search code exact n)
  := by
  dsimp only [search]
  cases hfound : (List.range n).reverse.findSome? fun k =>
      neighbour? code exact (Nat.pow 10 (k + 1)) with
  | none => apply h
  | some units =>
    obtain ⟨k, -, hk⟩ := List.exists_of_findSome?_eq_some hfound
    apply roundsTo_of_neighbour?_eq_some hk

/-- The shortest decimal of a number is rounded to it. -/
theorem isNearest_shortest (code : Nat) :
  IsNearest (shortest code).number code
  := by
  dsimp only [shortest]
  rw [← roundsTo_iff]
  apply roundsTo_search (roundsTo_exactUnits code)

end Abacus.Binary64
