import Mathlib
import Abacus.Proofs.Binary64.Interval
import Abacus.Proofs.Binary64.Shortest

/-!
# The digits of the shortest decimal

`HasDigits n x` says that `n` significant digits are enough for `x`. The search ends on a grid of
multiples of a power of ten, at the one nearest to the number of the code, and no multiple of the
next power of ten is rounded to the code: `Chosen`, `exists_chosen_shortest`. Between a decimal with
fewer digits and the chosen one there would be such a multiple, `Chosen.hasDigits`. A decimal with as
many digits is on the same grid, or it is less than the power of ten of the grid and that is rounded
to the code as well. Then the code is the second one, `two_mul_ten_pow_le`, and the decimal is not
nearer either: `Chosen.le_of_hasDigits`.
-/

namespace Abacus

/-- The number has a decimal notation with at most `n` significant digits. -/
def HasDigits (n : Nat) (x : ℚ) : Prop :=
  ∃ (m : Nat) (exponent : ℤ), m < 10 ^ n ∧ |x| = m * 10 ^ exponent

namespace Binary64

/-! ### The neighbours on a grid -/

section

variable {code units low high : Nat}

/-- The multiples of `10 ^ -1074` that are rounded to a code make up an interval. -/
theorem roundsTo_between (hlow : roundsTo code low) (hhigh : roundsTo code high)
    (hle : low ≤ units) (hle' : units ≤ high) :
  roundsTo code units
  := by
  rw [roundsTo_iff] at *
  have hpos : (0 : ℚ) < 10 ^ exactPlaces := by positivity
  apply hlow.between hhigh <;> rw [Decimal.number, Decimal.number, div_le_div_iff_of_pos_right hpos]
  · exact_mod_cast hle
  · exact_mod_cast hle'

variable {exact grid m : Nat}

/-- A multiple on the grid is at most the neighbour below, or it is at least the one above. -/
theorem mul_le_or_le_mul (exact grid m : Nat) :
  m * grid ≤ exact / grid * grid ∨ exact / grid * grid + grid ≤ m * grid
  := by
  rcases Nat.lt_or_ge (exact / grid) m with hlt | hge
  · right
    rw [← Nat.succ_mul]
    apply Nat.mul_le_mul_right _ hlt
  · left
    apply Nat.mul_le_mul_right _ hge

/-- If a multiple on the grid is rounded to the code, so is one of the neighbours. -/
theorem neighbour?_ne_none (hgrid : 0 < grid) (hexact : roundsTo code exact)
    (hm : roundsTo code (m * grid)) :
  neighbour? code exact grid ≠ none
  := by
  have hlow : exact / grid * grid ≤ exact := Nat.div_mul_le_self exact grid
  have hhigh : exact < exact / grid * grid + grid := Nat.lt_div_mul_add hgrid
  dsimp only [neighbour?]
  rcases mul_le_or_le_mul exact grid m with hle | hge
  · rw [if_pos (roundsTo_between hm hexact hle hlow)]
    nofun
  · split
    · nofun
    · rw [if_pos (roundsTo_between hexact hm hhigh.le hge)]
      nofun

/-- The neighbour taken is on the grid, and no multiple on the grid that is rounded to the code is
nearer. -/
theorem nearest_of_neighbour?_eq_some (hgrid : 0 < grid) (hexact : roundsTo code exact)
    (h : neighbour? code exact grid = some units) :
  (∃ m, units = m * grid)
    ∧ ∀ m, roundsTo code (m * grid) →
      ((units : ℤ) - exact).natAbs ≤ (((m * grid : Nat) : ℤ) - exact).natAbs
  := by
  have hlow : exact / grid * grid ≤ exact := Nat.div_mul_le_self exact grid
  have hhigh : exact < exact / grid * grid + grid := Nat.lt_div_mul_add hgrid
  dsimp only [neighbour?] at h
  split at h
  · split at h
    · next hnearer =>
      cases h
      refine ⟨⟨exact / grid + 1, (Nat.succ_mul _ _).symm⟩, fun m _ => ?_⟩
      rcases mul_le_or_le_mul exact grid m with hle | hge <;> omega
    · next hnot =>
      cases h
      refine ⟨⟨_, rfl⟩, fun m hm => ?_⟩
      rcases mul_le_or_le_mul exact grid m with hle | hge
      · omega
      · have hfarther := Nat.lt_of_not_le fun hle =>
          hnot ⟨roundsTo_between hexact hm hhigh.le hge, hle⟩
        omega
  · next hnot =>
    split at h
    · cases h
      refine ⟨⟨exact / grid + 1, (Nat.succ_mul _ _).symm⟩, fun m hm => ?_⟩
      rcases mul_le_or_le_mul exact grid m with hle | hge
      · exact absurd (roundsTo_between hm hexact hle hlow) hnot
      · omega
    · cases h

end

/-! ### The search -/

/-- A search from the greatest number on. -/
theorem getD_findSome?_reverse_range_succ {α : Type} (f : Nat → Option α) (n : Nat) (a : α) :
  ((List.range (n + 1)).reverse.findSome? f).getD a
    = (f n).getD (((List.range n).reverse.findSome? f).getD a)
  := by
  rw [List.range_succ, List.reverse_append, List.reverse_singleton, List.singleton_append,
    List.findSome?_cons]
  cases f n <;> rfl

theorem search_succ (code exact n : Nat) :
  search code exact (n + 1) = (neighbour? code exact (Nat.pow 10 (n + 1))).getD (search code exact n)
  := getD_findSome?_reverse_range_succ _ _ _

/-- The search ends on the coarsest grid with a multiple that is rounded to the code, at the nearest
one. -/
theorem exists_grid_of_search {code exact : Nat} (hexact : roundsTo code exact) {n : Nat}
    (hcoarser : ∀ m, ¬ roundsTo code (m * 10 ^ (n + 1))) :
  ∃ k, (∃ m, search code exact n = m * 10 ^ k)
    ∧ (∀ m, roundsTo code (m * 10 ^ k) → ((search code exact n : ℤ) - exact).natAbs
      ≤ (((m * 10 ^ k : Nat) : ℤ) - exact).natAbs)
    ∧ ∀ m, ¬ roundsTo code (m * 10 ^ (k + 1))
  := by
  induction n with
  | zero =>
    refine ⟨0, ⟨exact, (Nat.mul_one exact).symm⟩, fun m _ => ?_, hcoarser⟩
    have hsearch : search code exact 0 = exact := rfl
    rw [hsearch, sub_self, Int.natAbs_zero]
    apply Nat.zero_le
  | succ n ih =>
    have hgrid : 0 < Nat.pow 10 (n + 1) := Nat.pow_pos (by decide)
    rw [search_succ]
    cases hneighbour : neighbour? code exact (Nat.pow 10 (n + 1)) with
    | some units =>
      obtain ⟨hm, hnearest⟩ := nearest_of_neighbour?_eq_some hgrid hexact hneighbour
      exact ⟨n + 1, hm, hnearest, hcoarser⟩
    | none =>
      apply ih
      intro m hm
      apply neighbour?_ne_none hgrid hexact hm hneighbour

/-- Zero is on every grid. -/
theorem neighbour?_zero {code grid : Nat} (hgrid : 0 < grid) (hzero : roundsTo code 0) :
  neighbour? code 0 grid = some 0
  := by
  dsimp only [neighbour?]
  rw [Nat.zero_div, Nat.zero_mul, Nat.zero_add, if_pos hzero, if_neg]
  omega

theorem search_zero {code : Nat} (hzero : roundsTo code 0) (n : Nat) :
  search code 0 n = 0
  := by
  induction n with
  | zero => rfl
  | succ n ih =>
    have hgrid : 0 < Nat.pow 10 (n + 1) := Nat.pow_pos (by decide)
    rw [search_succ, neighbour?_zero hgrid hzero]
    rfl

theorem shortest_zero :
  shortest 0 = ⟨0, exactPlaces⟩
  := by
  have hzero : exactUnits 0 = 0 := by
    have hquanta : quanta 0 = 0 := by decide
    rw [exactUnits, hquanta, Nat.zero_mul]
  have hrounds := roundsTo_exactUnits 0
  rw [hzero] at hrounds
  rw [shortest, hzero, search_zero hrounds]

/-! ### The chosen decimal -/

/-- The decimal is on the grid of the multiples of `10 ^ e`, no multiple on this grid that is rounded
to the code is nearer, and none on the next coarser grid is rounded to the code. -/
structure Chosen (code : Nat) (e : ℤ) (x : ℚ) : Prop where
  exists_eq : ∃ m : Nat, x = m * 10 ^ e
  isNearest : IsNearest x code
  le : ∀ m : Nat, IsNearest (m * 10 ^ e) code →
    |x - magnitude code| ≤ |m * 10 ^ e - magnitude code|
  coarser : ∀ m : Nat, ¬ IsNearest (m * 10 ^ (e + 1)) code

theorem number_mul_ten_pow (m k : Nat) :
  Decimal.number ⟨m * 10 ^ k, exactPlaces⟩ = m * 10 ^ ((k : ℤ) - exactPlaces)
  := by
  rw [Decimal.number, zpow_sub₀ (by decide), zpow_natCast, zpow_natCast, Nat.cast_mul, Nat.cast_pow,
    Nat.cast_ofNat, mul_div_assoc]

/-- Distances of units are those of the numbers. -/
theorem abs_number_sub_magnitude (code units : Nat) :
  |Decimal.number ⟨units, exactPlaces⟩ - magnitude code|
    = ((units : ℤ) - exactUnits code).natAbs / 10 ^ exactPlaces
  := by
  have hpos : (0 : ℚ) < 10 ^ exactPlaces := by positivity
  rw [← number_exactUnits, Decimal.number, Decimal.number, ← sub_div, abs_div, abs_of_pos hpos,
    Nat.cast_natAbs]
  push_cast
  rfl

/-- The search covers all grids that have a multiple that is rounded to the code. -/
theorem not_roundsTo_mul_ten_pow {code : Nat} (hcode : code ≠ 0) (m : Nat) :
  ¬ roundsTo code (m * 10 ^ ((Nat.toDigits 10 (exactUnits code)).length + 1))
  := by
  have hlt : exactUnits code < 10 ^ (Nat.toDigits 10 (exactUnits code)).length :=
    (Nat.length_toDigits_le_iff (by decide) Nat.length_toDigits_pos).mp (Nat.le_refl _)
  generalize (Nat.toDigits 10 (exactUnits code)).length = k at hlt
  intro hm
  rw [roundsTo_iff] at hm
  have hpos : (0 : ℚ) < 10 ^ exactPlaces := by positivity
  have hmidpoint := hm.two_mul_le (Nat.lt_succ_self code)
  have hdouble := magnitude_succ_le hcode
  rw [← number_exactUnits code] at hmidpoint hdouble
  have hbound : 2 * Decimal.number ⟨m * 10 ^ (k + 1), exactPlaces⟩
      ≤ 3 * Decimal.number ⟨exactUnits code, exactPlaces⟩ := by
    linarith
  rw [Decimal.number, Decimal.number, ← mul_div_assoc, ← mul_div_assoc,
    div_le_div_iff_of_pos_right hpos] at hbound
  have hle : 2 * (m * 10 ^ (k + 1)) ≤ 3 * exactUnits code := by exact_mod_cast hbound
  cases m with
  | zero =>
    have hnumber := hm.pos hcode
    rw [Decimal.number, Nat.zero_mul, Nat.cast_zero, zero_div] at hnumber
    apply lt_irrefl 0 hnumber
  | succ m =>
    rw [Nat.add_one_mul m, Nat.pow_succ, ← Nat.mul_assoc] at hle
    omega

/-- The shortest decimal is a chosen one. -/
theorem exists_chosen_shortest {code : Nat} (hcode : code ≠ 0) :
  ∃ e, Chosen code e (shortest code).number
  := by
  obtain ⟨k, ⟨m, hm⟩, hnearest, hcoarser⟩ :=
    exists_grid_of_search (roundsTo_exactUnits code) (not_roundsTo_mul_ten_pow hcode)
  have hpos : (0 : ℚ) < 10 ^ exactPlaces := by positivity
  use (k : ℤ) - exactPlaces
  constructor
  case exists_eq =>
    use m
    rw [← number_mul_ten_pow, ← hm]
    rfl
  case isNearest => apply isNearest_shortest
  case le =>
    intro m' hm'
    rw [← number_mul_ten_pow] at hm' ⊢
    rw [shortest, abs_number_sub_magnitude, abs_number_sub_magnitude,
      div_le_div_iff_of_pos_right hpos, Nat.cast_le]
    apply hnearest m' (roundsTo_iff.mpr hm')
  case coarser =>
    intro m' hm'
    apply hcoarser m'
    rw [roundsTo_iff, number_mul_ten_pow, Nat.cast_succ, add_sub_right_comm]
    apply hm'

/-! ### Powers of ten among the first codes -/

theorem quanta_of_lt {code : Nat} (h : code < exponentUnit) :
  quanta code = code
  := by
  rw [quanta, Nat.div_eq_of_lt h, Nat.mod_eq_of_lt h, if_pos rfl]

theorem magnitude_of_le_ten {code : Nat} (h : code ≤ 10) :
  magnitude code * 2 ^ 1074 = code
  := by
  have hlt : code < exponentUnit := Nat.lt_of_le_of_lt h (by decide)
  have hpos : (0 : ℚ) < 2 ^ 1074 := by positivity
  rw [magnitude, quanta_of_lt hlt, div_mul_cancel₀ _ hpos.ne']

/-- Where `p` is a bit more than twice a power of ten, a power of ten times `p` is a bit more than two,
or it is less than a half or more than ten. -/
theorem ten_pow_mul_bounds {e : ℤ} {n : Nat} {p : ℚ} (hlow : 2 * 10 ^ n < p)
    (hhigh : 10 * p < 21 * 10 ^ n) (hle : 1 / 2 ≤ 10 ^ e * p) (hle' : 10 ^ e * p ≤ 10) :
  2 < 10 ^ e * p ∧ 10 * (10 ^ e * p) < 21
  := by
  have hten : (1 : ℚ) < 10 := by norm_num
  have hpos : (0 : ℚ) < 10 ^ e := by positivity
  have hsplit : (10 : ℚ) ^ (e + n) = 10 ^ e * 10 ^ n := by
    rw [zpow_add₀ (by decide), zpow_natCast]
  have hless : (10 : ℚ) ^ (e + n) < 10 ^ (1 : ℤ) := by
    rw [hsplit, zpow_one]
    nlinarith
  have hgreater : (10 : ℚ) ^ (-1 : ℤ) < 10 ^ (e + n) := by
    rw [hsplit, zpow_neg_one]
    nlinarith
  rw [zpow_lt_zpow_iff_right₀ hten] at hless hgreater
  have hexponent : e + n = 0 := by omega
  rw [hexponent, zpow_zero] at hsplit
  constructor <;> nlinarith

/-- The only power of ten from a half of the unit `2 ^ -1074` to ten of them is a bit more than two
of them. -/
theorem ten_pow_units_bounds {e : ℤ} (hle : 1 / 2 ≤ (10 : ℚ) ^ e * 2 ^ 1074)
    (hle' : (10 : ℚ) ^ e * 2 ^ 1074 ≤ 10) :
  2 < (10 : ℚ) ^ e * 2 ^ 1074 ∧ 10 * ((10 : ℚ) ^ e * 2 ^ 1074) < 21
  := by
  have hlow : 2 * 10 ^ 323 < 2 ^ 1074 := by decide +kernel
  have hhigh : 10 * 2 ^ 1074 < 21 * 10 ^ 323 := by decide +kernel
  apply ten_pow_mul_bounds (n := 323) _ _ hle hle'
  · exact_mod_cast hlow
  · exact_mod_cast hhigh

/-- Among the first codes, a number that is rounded to a code is at most half a unit `2 ^ -1074` from
its number. -/
theorem IsNearest.units_bounds {c : Nat} (hc : c ≤ 8) {y : ℚ} (h : IsNearest y (c + 1)) :
  2 * (c : ℚ) + 1 ≤ 2 * (y * 2 ^ 1074) ∧ 2 * (y * 2 ^ 1074) ≤ 2 * c + 3
  := by
  have hbelow := h.le_two_mul (Nat.lt_succ_self c)
  have habove := h.two_mul_le (Nat.lt_succ_self (c + 1))
  have hunits := magnitude_of_le_ten (by omega : c + 1 ≤ 10)
  have hunits_below := magnitude_of_le_ten (by omega : c ≤ 10)
  have hunits_above := magnitude_of_le_ten (by omega : c + 2 ≤ 10)
  have hpos : (0 : ℚ) < 2 ^ 1074 := by positivity
  generalize (2 : ℚ) ^ 1074 = p at *
  replace hbelow := mul_le_mul_of_nonneg_right hbelow hpos.le
  replace habove := mul_le_mul_of_nonneg_right habove hpos.le
  rw [add_mul, hunits, hunits_below] at hbelow
  rw [add_mul, hunits, hunits_above] at habove
  push_cast at hbelow habove
  constructor <;> linarith

/-- A power of ten above the number of a code is at least as near as any number below nine tenths of
it, if both are rounded to the code. -/
theorem ten_pow_nearer {code : Nat} (hcode : code ≠ 0) {e : ℤ} {y : ℚ}
    (hpow : IsNearest (10 ^ e) code) (hy : IsNearest y code) (hle : 10 * y ≤ 9 * 10 ^ e)
    (hlt : magnitude code < 10 ^ e) :
  10 ^ e - magnitude code ≤ magnitude code - y
  := by
  obtain ⟨c, rfl⟩ := Nat.exists_eq_succ_of_ne_zero hcode
  have hc : c ≤ 8 := Nat.le_of_succ_le_succ (hpow.code_le_nine hy hle)
  have hunits := magnitude_of_le_ten (by omega : c + 1 ≤ 10)
  obtain ⟨hlow, -⟩ := hy.units_bounds hc
  obtain ⟨-, hhigh⟩ := hpow.units_bounds hc
  have hbounds := @ten_pow_units_bounds e
  have hpos : (0 : ℚ) < 2 ^ 1074 := by positivity
  generalize (2 : ℚ) ^ 1074 = p at *
  -- All in units of `2 ^ -1074`: the power of ten is above the code and not beyond the midpoint.
  have hlt_units := mul_lt_mul_of_pos_right hlt hpos
  have hle_units := mul_le_mul_of_nonneg_right hle hpos.le
  rw [hunits, Nat.cast_succ] at hlt_units
  have hc' : (c : ℚ) ≤ 8 := by exact_mod_cast hc
  obtain ⟨htwo, htwo'⟩ := hbounds (by linarith) (by linarith)
  obtain rfl : c = 1 := by
    have hmore : 0 < c := by exact_mod_cast (by linarith : (0 : ℚ) < c)
    have hless : c < 2 := by exact_mod_cast (by linarith : (c : ℚ) < 2)
    omega
  push_cast at *
  apply le_of_mul_le_mul_right _ hpos
  rw [sub_mul, sub_mul, hunits]
  linarith

/-- A power of ten is at least as near as any number below nine tenths of it, if both are rounded to
the code. -/
theorem abs_ten_pow_sub_le {code : Nat} (hcode : code ≠ 0) {e : ℤ} {y : ℚ}
    (hpow : IsNearest (10 ^ e) code) (hy : IsNearest y code) (hle : 10 * y ≤ 9 * 10 ^ e) :
  |10 ^ e - magnitude code| ≤ |y - magnitude code|
  := by
  have hpos := hy.pos hcode
  rw [abs_sub_comm y]
  rcases lt_or_ge (magnitude code) (10 ^ e) with hlt | hge
  · rw [abs_of_pos (sub_pos.mpr hlt)]
    apply (ten_pow_nearer hcode hpow hy hle hlt).trans (le_abs_self _)
  · rw [abs_sub_comm, abs_of_nonneg (sub_nonneg.mpr hge)]
    apply le_trans _ (le_abs_self _)
    linarith

/-! ### Other decimals -/

namespace Chosen

variable {code : Nat} {e : ℤ} {x y : ℚ}

/-- A decimal that is rounded to the code has no greater unit. -/
theorem exponent_le (h : Chosen code e x) {m : Nat} {e' : ℤ} (hy : IsNearest (m * 10 ^ e') code) :
  e' ≤ e
  := by
  by_contra hgt
  obtain ⟨k, rfl⟩ := Int.le.dest (Int.add_one_le_of_lt (not_le.mp hgt))
  apply h.coarser (m * 10 ^ k)
  have hsplit : ((m * 10 ^ k : Nat) : ℚ) * 10 ^ (e + 1) = m * 10 ^ (e + 1 + k) := by
    rw [zpow_add₀ (by decide) (e + 1) k, zpow_natCast]
    push_cast
    ring
  rw [hsplit]
  apply hy

/-- A power of ten between a number that is rounded to the code and the chosen one has no greater
unit. -/
theorem nonpos_of_between (h : Chosen code e x) (hy : IsNearest y code) {k : Nat}
    (hle : y ≤ 10 ^ (k + e)) (hle' : 10 ^ (k + e) ≤ x) :
  k = 0 ∧ IsNearest (10 ^ e) code
  := by
  have hpow := hy.between h.isNearest hle hle'
  rw [← one_mul ((10 : ℚ) ^ (k + e)), ← Nat.cast_one] at hpow
  obtain rfl : k = 0 := by
    have hexponent := h.exponent_le hpow
    omega
  rw [Nat.cast_one, one_mul, Nat.cast_zero, zero_add] at hpow
  exact ⟨rfl, hpow⟩

/-- If `k` digits are not enough for the chosen decimal, it is at least the `k`-th power of ten of its
units. -/
theorem ten_pow_le (h : Chosen code e x) (hcode : code ≠ 0) {k : Nat} (hk : ¬ HasDigits k x) :
  10 ^ (k + e) ≤ x
  := by
  obtain ⟨m, hm⟩ := h.exists_eq
  have hpos := h.isNearest.pos hcode
  have hle : 10 ^ k ≤ m := by
    by_contra hlt
    apply hk
    use m, e, not_le.mp hlt
    rw [abs_of_pos hpos, hm]
  rw [zpow_add₀ (by decide), zpow_natCast, hm]
  apply mul_le_mul_of_nonneg_right (by exact_mod_cast hle) (by positivity)

/-- A decimal that is rounded to the code has at least as many digits as the chosen one. -/
theorem hasDigits (h : Chosen code e x) (hcode : code ≠ 0) (hy : IsNearest y code) {k : Nat}
    (hk : HasDigits k y) :
  HasDigits k x
  := by
  by_contra hnot
  have hpos := hy.pos hcode
  obtain ⟨m, e', hm, heq⟩ := hk
  rw [abs_of_pos hpos] at heq
  have hexponent := h.exponent_le (heq ▸ hy)
  have hle : y ≤ 10 ^ (k + e) := by
    rw [heq, zpow_add₀ (by decide), zpow_natCast]
    apply mul_le_mul _ (zpow_le_zpow_right₀ (by norm_num) hexponent) (by positivity) (by positivity)
    exact_mod_cast hm.le
  obtain ⟨rfl, -⟩ := h.nonpos_of_between hy hle (h.ten_pow_le hcode hnot)
  obtain rfl : m = 0 := Nat.lt_one_iff.mp hm
  rw [Nat.cast_zero, zero_mul] at heq
  apply hpos.ne' heq

/-- A decimal that is rounded to the code and has no more digits than the chosen one needs is not
nearer. -/
theorem le_of_hasDigits (h : Chosen code e x) (hcode : code ≠ 0) (hy : IsNearest y code) {k : Nat}
    (hk : HasDigits k y) (hleast : ∀ j < k, ¬ HasDigits j x) :
  |x - magnitude code| ≤ |y - magnitude code|
  := by
  have hpos := hy.pos hcode
  obtain ⟨m, e', hm, heq⟩ := hk
  rw [abs_of_pos hpos] at heq
  rcases (h.exponent_le (heq ▸ hy)).eq_or_lt with rfl | hexponent
  · rw [heq]
    apply h.le m (heq ▸ hy)
  cases k with
  | zero =>
    obtain rfl : m = 0 := Nat.lt_one_iff.mp hm
    rw [Nat.cast_zero, zero_mul] at heq
    exact absurd heq hpos.ne'
  | succ k =>
    -- The decimal has smaller units, so it is below the least decimal of the grid with as many digits
    -- as the chosen one. This is the power of ten of the grid itself.
    have hunits : (10 : ℚ) ^ e' ≤ 10 ^ (e - 1) :=
      zpow_le_zpow_right₀ (by norm_num) (Int.le_sub_one_of_lt hexponent)
    have hten : (10 : ℚ) ^ e = 10 * 10 ^ (e - 1) := by
      rw [← zpow_one_add₀ (by decide), add_sub_cancel]
    have hle : y ≤ 10 ^ (k + e) := by
      rw [heq, zpow_add₀ (by decide), zpow_natCast, hten, ← mul_assoc, ← pow_succ]
      apply mul_le_mul _ hunits (by positivity) (by positivity)
      exact_mod_cast hm.le
    obtain ⟨rfl, hpow⟩ :=
      h.nonpos_of_between hy hle (h.ten_pow_le hcode (hleast k (Nat.lt_succ_self k)))
    have hnine : (m : ℚ) ≤ 9 := by exact_mod_cast Nat.le_of_lt_succ hm
    have hle_nine : 10 * y ≤ 9 * 10 ^ e := by
      have hmul := mul_le_mul hnine hunits (by positivity) (by norm_num)
      linarith
    calc |x - magnitude code|
        ≤ |(1 : Nat) * 10 ^ e - magnitude code| := by
          apply h.le 1
          rw [Nat.cast_one, one_mul]
          apply hpow
      _ = |10 ^ e - magnitude code| := by rw [Nat.cast_one, one_mul]
      _ ≤ |y - magnitude code| := abs_ten_pow_sub_le hcode hpow hy hle_nine

end Chosen

end Binary64

end Abacus
