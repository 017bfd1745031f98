import Mathlib
import Abacus.Binary64.Nearest
import Abacus.Proofs.Decimal

/-!
# The nearest number of the format

The numbers of the codes increase with the codes, `quanta_strictMono`, and those from a power of
two on lie on the grid of a significand of fifty-three bits, `exists_quanta_eq_or_lt`. So the
integer nearest to a fraction, on the grid of the fraction, gives the code of the number nearest to
it, and an even one of two: `nearestCode_isNearest`. There is one such code only,
`IsNearest.unique`, so the rounding does not depend on how the fraction is written. The numbers
that are rounded to a finite one are those below `2 ^ 1024 - 2 ^ 970`,
`IsNearest.lt_infinityCode_iff`.
-/

namespace Abacus.Binary64

/-! ### The numbers of the codes -/

theorem exponentUnit_eq :
  exponentUnit = 0x10000000000000
  := by
  decide

/-- The significand of a code. Its leading bit is not among the bits of the code, and it has none
where the exponent is least. -/
def significand (code : Nat) : Nat :=
  if code / exponentUnit = 0 then code % exponentUnit else exponentUnit + code % exponentUnit

/-- The power of two, in units of `2 ^ -1074`, that the significand of a code is multiplied by. -/
def scale (code : Nat) : Nat :=
  code / exponentUnit - 1

theorem quanta_eq (code : Nat) :
  quanta code = significand code * 2 ^ scale code
  := by
  rw [significand, scale]
  dsimp only [quanta]
  split
  · next h => rw [h, Nat.zero_sub, pow_zero, Nat.mul_one]
  · rfl

theorem significand_mod_two (code : Nat) :
  significand code % 2 = code % 2
  := by
  rw [significand, exponentUnit_eq]
  split <;> omega

theorem significand_lt (code : Nat) :
  significand code < 2 * exponentUnit
  := by
  rw [significand, exponentUnit_eq]
  split <;> omega

theorem exponentUnit_le_significand {code : Nat} (h : scale code ≠ 0) :
  exponentUnit ≤ significand code
  := by
  rw [scale] at h
  rw [significand, if_neg (by omega)]
  apply Nat.le_add_right

/-- The code of a significand at a scale. A significand of twice the unit stands for half of it at
the next scale. -/
theorem quanta_mul_add {exponent fraction : Nat} (hle : fraction ≤ 2 * exponentUnit)
    (hleading : exponent = 0 ∨ exponentUnit ≤ fraction) :
  quanta (exponent * exponentUnit + fraction) = fraction * 2 ^ exponent
  := by
  rw [quanta_eq, significand, scale]
  rw [exponentUnit_eq] at *
  rcases Nat.lt_or_ge fraction 0x10000000000000 with hlt | hge
  · obtain rfl : exponent = 0 := by omega
    have hdiv : (0 * 0x10000000000000 + fraction) / 0x10000000000000 = 0 := by omega
    rw [hdiv]
    simp
    omega
  · rcases Nat.lt_or_eq_of_le hle with hlt | rfl
    · have hdiv : (exponent * 0x10000000000000 + fraction) / 0x10000000000000 = exponent + 1 := by
        omega
      have hmod : 0x10000000000000 + (exponent * 0x10000000000000 + fraction) % 0x10000000000000
          = fraction := by
        omega
      rw [hdiv, if_neg (Nat.succ_ne_zero _), hmod, Nat.add_sub_cancel]
    · have hdiv : (exponent * 0x10000000000000 + 2 * 0x10000000000000) / 0x10000000000000
          = exponent + 2 := by
        omega
      have hmod : (exponent * 0x10000000000000 + 2 * 0x10000000000000) % 0x10000000000000
          = 0 := by
        omega
      have hexponent : exponent + 2 - 1 = exponent + 1 := rfl
      rw [hdiv, if_neg (Nat.succ_ne_zero _), hmod, hexponent, Nat.add_zero, pow_succ]
      ring

theorem scale_mul_add_significand (code : Nat) :
  scale code * exponentUnit + significand code = code
  := by
  rw [scale, significand, exponentUnit_eq]
  split <;> omega

theorem quanta_lt_succ (code : Nat) :
  quanta code < quanta (code + 1)
  := by
  have hleading : scale code = 0 ∨ exponentUnit ≤ significand code + 1 := by
    by_cases h : scale code = 0
    · exact .inl h
    · exact .inr (Nat.le_succ_of_le (exponentUnit_le_significand h))
  have hsucc := quanta_mul_add (significand_lt code) hleading
  rw [Nat.succ_eq_add_one, ← Nat.add_assoc, scale_mul_add_significand] at hsucc
  rw [hsucc, quanta_eq]
  apply Nat.mul_lt_mul_of_pos_right (Nat.lt_succ_self _) (Nat.two_pow_pos _)

theorem quanta_strictMono :
  StrictMono quanta
  := strictMono_nat_of_lt_succ quanta_lt_succ

/-- From a power of two on, every code has a number on the grid of that scale. -/
theorem exists_quanta_eq_or_lt (code : Nat) (n : Nat) :
  (∃ k, quanta code = k * 2 ^ n) ∨ (n ≠ 0 ∧ quanta code < exponentUnit * 2 ^ n)
  := by
  rw [quanta_eq]
  rcases Nat.lt_or_ge (scale code) n with hlt | hge
  · right
    constructor
    · apply Nat.ne_zero_of_lt hlt
    · calc significand code * 2 ^ scale code
          < 2 * exponentUnit * 2 ^ scale code :=
            Nat.mul_lt_mul_of_pos_right (significand_lt code) (Nat.two_pow_pos _)
        _ = exponentUnit * 2 ^ (scale code + 1) := by
            rw [pow_succ]
            ring
        _ ≤ exponentUnit * 2 ^ n :=
            Nat.mul_le_mul_left _ (Nat.pow_le_pow_right Nat.two_pos hlt)
  · left
    use significand code * 2 ^ (scale code - n)
    rw [Nat.mul_assoc, ← pow_add, Nat.sub_add_cancel hge]

/-! ### The nearest integer -/

section

variable (n : Nat) {d : Nat}

theorem cast_div_add_mod (hd : 0 < d) :
  (n / d : ℚ) = (n / d : Nat) + (n % d : Nat) / d
  := by
  have hpos : (d : ℚ) ≠ 0 := Nat.cast_ne_zero.mpr hd.ne'
  rw [div_eq_iff hpos, add_mul, div_mul_cancel₀ _ hpos]
  exact_mod_cast (Nat.div_add_mod' n d).symm

/-- The nearest integer is at most a half away, and it is even if it is exactly a half away. -/
theorem divNearest_error (hd : 0 < d) :
  |(n / d : ℚ) - divNearest n d| < 1 / 2
    ∨ |(n / d : ℚ) - divNearest n d| = 1 / 2 ∧ divNearest n d % 2 = 0
  := by
  have hpos : (0 : ℚ) < d := Nat.cast_pos.mpr hd
  have hlt : ((n % d : Nat) : ℚ) < d := Nat.cast_lt.mpr (Nat.mod_lt n hd)
  have hle : (0 : ℚ) ≤ (n % d : Nat) / d := by positivity
  rw [cast_div_add_mod n hd]
  dsimp only [divNearest]
  rcases Nat.lt_trichotomy (2 * (n % d)) d with hbelow | hhalf | habove
  · left
    have hlt' : (2 * (n % d : Nat) : ℚ) < d := by exact_mod_cast hbelow
    rw [if_pos hbelow, add_sub_cancel_left, abs_of_nonneg hle, div_lt_iff₀ hpos]
    linarith
  · right
    have hhalf' : (2 * (n % d : Nat) : ℚ) = d := by exact_mod_cast hhalf
    have hfraction : ((n % d : Nat) / d : ℚ) = 1 / 2 := by
      rw [div_eq_iff hpos.ne']
      linarith
    rw [if_neg (by omega), if_neg (by omega), hfraction]
    rcases Nat.mod_two_eq_zero_or_one (n / d) with heven | hodd
    · rw [heven]
      norm_num
      exact heven
    · rw [hodd]
      norm_num
      omega
  · left
    have hlt' : (d : ℚ) < 2 * (n % d : Nat) := by exact_mod_cast habove
    have hfraction : (1 / 2 : ℚ) < (n % d : Nat) / d := by
      rw [lt_div_iff₀ hpos]
      linarith
    have hfraction' : ((n % d : Nat) / d : ℚ) < 1 := by
      rwa [div_lt_one hpos]
    rw [if_neg (by omega), if_pos habove, abs_lt]
    push_cast
    constructor <;> linarith

/-- Any other integer is not nearer, and as near only if the nearest one is even. -/
theorem divNearest_nearest (hd : 0 < d) {k : Nat} (hk : k ≠ divNearest n d) :
  |(n / d : ℚ) - divNearest n d| < |(n / d : ℚ) - k|
    ∨ |(n / d : ℚ) - divNearest n d| = |(n / d : ℚ) - k| ∧ divNearest n d % 2 = 0
  := by
  have hapart : (1 : ℚ) ≤ |(divNearest n d : ℚ) - k| := by
    have hne : ((divNearest n d : ℤ) - k) ≠ 0 := sub_ne_zero.mpr (by exact_mod_cast hk.symm)
    exact_mod_cast Int.one_le_abs hne
  have htriangle := abs_sub_le (divNearest n d : ℚ) (n / d) k
  rw [abs_sub_comm _ (n / d : ℚ)] at htriangle
  rcases divNearest_error n hd with hlt | ⟨heq, heven⟩
  · left
    linarith
  · rw [heq] at htriangle ⊢
    rcases (show (1 / 2 : ℚ) ≤ |(n / d : ℚ) - k| by linarith).lt_or_eq with hlt | heq'
    · exact .inl hlt
    · exact .inr ⟨heq', heven⟩

theorem le_divNearest :
  n / d ≤ divNearest n d
  := by
  dsimp only [divNearest]
  split
  · exact Nat.le_refl _
  · split <;> apply Nat.le_add_right

theorem divNearest_le_succ :
  divNearest n d ≤ n / d + 1
  := by
  dsimp only [divNearest]
  split
  · apply Nat.le_succ
  · split <;> omega

end

/-! ### The nearest number -/

/-- The number of a code. -/
def magnitude (code : Nat) : ℚ :=
  quanta code / 2 ^ 1074

/-- The number of any other code is farther from `x`, or as far and the code is even. -/
def IsNearest (x : ℚ) (code : Nat) : Prop :=
  ∀ other ≠ code, |x - magnitude code| < |x - magnitude other|
    ∨ |x - magnitude code| = |x - magnitude other| ∧ code % 2 = 0

theorem abs_sub_magnitude (x : ℚ) (code : Nat) :
  |x - magnitude code| = |x * 2 ^ 1074 - quanta code| / 2 ^ 1074
  := by
  have hpos : (0 : ℚ) < 2 ^ 1074 := by positivity
  have heq : x - magnitude code = (x * 2 ^ 1074 - quanta code) / 2 ^ 1074 := by
    rw [magnitude, sub_div, mul_div_cancel_right₀ _ hpos.ne']
  rw [heq, abs_div, abs_of_pos hpos]

section

variable {n d shift : Nat}

/-- Distances on the grid of a scale are those of integers. -/
theorem abs_sub_mul_two_pow (k : Nat) :
  |(n / d : ℚ) - (k * 2 ^ shift : Nat)| = |(n / (d * 2 ^ shift : Nat) : ℚ) - k| * 2 ^ shift
  := by
  have hpos : (0 : ℚ) < 2 ^ shift := by positivity
  have heq : (n / d : ℚ) - (k * 2 ^ shift : Nat)
      = ((n / (d * 2 ^ shift : Nat) : ℚ) - k) * 2 ^ shift := by
    push_cast
    rw [sub_mul, ← div_div, div_mul_cancel₀ _ hpos.ne']
  rw [heq, abs_mul, abs_of_pos hpos]

/-- Any other number on the grid is farther than the nearest one, or as far and that is even. -/
theorem grid_lt_or_eq (hd : 0 < d) {k : Nat} (hk : k ≠ divNearest n (d * 2 ^ shift)) :
  |(n / d : ℚ) - (divNearest n (d * 2 ^ shift) * 2 ^ shift : Nat)|
      < |(n / d : ℚ) - (k * 2 ^ shift : Nat)|
    ∨ |(n / d : ℚ) - (divNearest n (d * 2 ^ shift) * 2 ^ shift : Nat)|
        = |(n / d : ℚ) - (k * 2 ^ shift : Nat)|
      ∧ divNearest n (d * 2 ^ shift) % 2 = 0
  := by
  have hgrid : 0 < d * 2 ^ shift := Nat.mul_pos hd (Nat.two_pow_pos _)
  rw [abs_sub_mul_two_pow, abs_sub_mul_two_pow]
  rcases divNearest_nearest n hgrid hk with hfarther | ⟨htie, heven⟩
  · left
    apply mul_lt_mul_of_pos_right hfarther (by positivity)
  · right
    rw [htie]
    exact ⟨rfl, heven⟩

/-- A number below all those with a leading bit on the grid is farther than the nearest one on the
grid. -/
theorem lt_of_below_grid (hd : 0 < d) (hleading : exponentUnit ≤ n / d / 2 ^ shift) {m : Nat}
    (hm : m < exponentUnit * 2 ^ shift) :
  |(n / d : ℚ) - (divNearest n (d * 2 ^ shift) * 2 ^ shift : Nat)| < |(n / d : ℚ) - m|
  := by
  have hpower : |(n / d : ℚ) - (divNearest n (d * 2 ^ shift) * 2 ^ shift : Nat)|
      ≤ |(n / d : ℚ) - (exponentUnit * 2 ^ shift : Nat)| := by
    by_cases heq : exponentUnit = divNearest n (d * 2 ^ shift)
    · rw [← heq]
    · rcases grid_lt_or_eq hd heq with hfarther | ⟨htie, -⟩
      · apply hfarther.le
      · apply htie.le
  have habove : ((exponentUnit * 2 ^ shift : Nat) : ℚ) ≤ n / d := by
    rw [Nat.le_div_iff_mul_le (Nat.two_pow_pos _)] at hleading
    apply le_trans (Nat.cast_le.mpr hleading) Nat.cast_div_le
  have hbelow : (m : ℚ) < (exponentUnit * 2 ^ shift : Nat) := Nat.cast_lt.mpr hm
  rw [abs_of_nonneg (sub_nonneg.mpr habove)] at hpower
  rw [abs_of_nonneg (sub_nonneg.mpr (hbelow.le.trans habove))]
  linarith

variable (hlt : n / d / 2 ^ shift < 2 * exponentUnit)
  (hleading : shift = 0 ∨ exponentUnit ≤ n / d / 2 ^ shift)

include hlt hleading

/-- A fraction is rounded on a grid on which it has a significand of fifty-three bits, or on the
finest one. -/
theorem quanta_nearest :
  quanta (shift * exponentUnit + divNearest n (d * 2 ^ shift))
    = divNearest n (d * 2 ^ shift) * 2 ^ shift
  := by
  rw [Nat.div_div_eq_div_mul] at hlt hleading
  apply quanta_mul_add
  · apply Nat.le_trans (divNearest_le_succ n) hlt
  · apply hleading.imp id
    intro hle
    apply Nat.le_trans hle (le_divNearest n)

theorem quanta_nearest_lt_or_eq (hd : 0 < d) {code other : Nat}
    (hcode : code = shift * exponentUnit + divNearest n (d * 2 ^ shift)) (hne : other ≠ code) :
  |(n / d : ℚ) - quanta code| < |(n / d : ℚ) - quanta other|
    ∨ |(n / d : ℚ) - quanta code| = |(n / d : ℚ) - quanta other| ∧ code % 2 = 0
  := by
  have hquanta := quanta_nearest hlt hleading
  rw [← hcode] at hquanta
  -- A number off the grid lies below the least one with a leading bit on it, which the fraction
  -- does not.
  rcases exists_quanta_eq_or_lt other shift with ⟨k, hk⟩ | ⟨hshift, hbelow⟩
  · have hparity : code % 2 = divNearest n (d * 2 ^ shift) % 2 := by
      rw [hcode, exponentUnit_eq]
      omega
    rw [hquanta, hk, hparity]
    apply grid_lt_or_eq hd
    rintro rfl
    apply hne (quanta_strictMono.injective (hk.trans hquanta.symm))
  · left
    rw [hquanta]
    apply lt_of_below_grid hd (hleading.resolve_left hshift) hbelow

end

theorem log2_sub_bounds (n : Nat) :
  n / 2 ^ (n.log2 - 52) < 2 * exponentUnit
    ∧ (n.log2 - 52 = 0 ∨ exponentUnit ≤ n / 2 ^ (n.log2 - 52))
  := by
  have hunit : exponentUnit = 2 ^ 52 := rfl
  have hlt := @Nat.lt_log2_self n
  constructor
  · rw [Nat.div_lt_iff_lt_mul (Nat.two_pow_pos _), hunit, ← Nat.pow_succ', ← Nat.pow_add]
    apply Nat.lt_of_lt_of_le hlt
    apply Nat.pow_le_pow_right Nat.two_pos
    omega
  · rcases Nat.le_total n.log2 52 with hle | hge
    · left
      omega
    · right
      have hne : n ≠ 0 := by
        rintro rfl
        simp at hge
      rw [Nat.le_div_iff_mul_le (Nat.two_pow_pos _), hunit, ← Nat.pow_add,
        Nat.add_sub_cancel' hge]
      apply Nat.log2_self_le hne

/-- A fraction in units of `2 ^ -1074` is rounded to the nearest number, and to the even code of
two. -/
theorem isNearest_of_units {x : ℚ} {n d : Nat} (hd : 0 < d) (hx : x * 2 ^ 1074 = n / d) :
  IsNearest x (((n / d).log2 - 52) * exponentUnit + divNearest n (d * 2 ^ ((n / d).log2 - 52)))
  := by
  obtain ⟨hlt, hleading⟩ := log2_sub_bounds (n / d)
  have hpos : (0 : ℚ) < 2 ^ 1074 := by positivity
  intro other hne
  rw [abs_sub_magnitude, abs_sub_magnitude, hx, div_lt_div_iff_of_pos_right hpos,
    div_left_inj' hpos.ne']
  apply quanta_nearest_lt_or_eq hlt hleading hd rfl hne

/-- A fraction is rounded to the nearest number, and to the even code of two. -/
theorem nearestCode_isNearest (num : Nat) {den : Nat} (hden : 0 < den) :
  IsNearest (num / den) (nearestCode num den)
  := by
  apply isNearest_of_units hden
  generalize 1074 = n
  rw [Nat.cast_mul, Nat.pow_eq, Nat.cast_pow, Nat.cast_ofNat, div_mul_eq_mul_div]

namespace IsNearest

variable {x : ℚ} {code other : Nat}

theorem le (h : IsNearest x code) (other : Nat) :
  |x - magnitude code| ≤ |x - magnitude other|
  := by
  by_cases heq : other = code
  · rw [heq]
  · rcases h other heq with hlt | ⟨htie, -⟩
    · exact hlt.le
    · exact htie.le

theorem even_of_tie (h : IsNearest x code) (hne : other ≠ code)
    (htie : |x - magnitude code| = |x - magnitude other|) :
  code % 2 = 0
  := ((h other hne).resolve_left htie.not_lt).2

end IsNearest

theorem magnitude_strictMono :
  StrictMono magnitude
  := by
  intro code other hlt
  have hpos : (0 : ℚ) < 2 ^ 1074 := by positivity
  rw [magnitude, magnitude, div_lt_div_iff_of_pos_right hpos, Nat.cast_lt]
  apply quanta_strictMono hlt

theorem magnitude_nonneg (code : Nat) :
  0 ≤ magnitude code
  := by
  rw [magnitude]
  positivity

theorem magnitude_zero :
  magnitude 0 = 0
  := by
  have hquanta : quanta 0 = 0 := by decide
  rw [magnitude, hquanta, Nat.cast_zero, zero_div]

/-- A number of the format is rounded to itself. -/
theorem isNearest_magnitude (code : Nat) :
  IsNearest (magnitude code) code
  := by
  intro other hne
  left
  rw [sub_self, abs_zero, abs_pos, sub_ne_zero]
  intro heq
  apply hne (magnitude_strictMono.injective heq.symm)

/-- Between two even codes with numbers as near on both sides of `x`, there is a code with a nearer
number. -/
theorem succ_nearer_of_tie {x : ℚ} {code other : Nat} (hlt : code < other)
    (heven : code % 2 = 0) (heven' : other % 2 = 0)
    (htie : |x - magnitude code| = |x - magnitude other|) :
  |x - magnitude (code + 1)| < |x - magnitude code|
  := by
  have hbelow : magnitude code < magnitude (code + 1) := magnitude_strictMono (by omega)
  have habove : magnitude (code + 1) < magnitude other := magnitude_strictMono (by omega)
  have hmiddle : x - magnitude code = magnitude other - x := by
    rcases abs_eq_abs.mp htie with heq | heq <;> linarith
  rw [abs_of_nonneg (by linarith : 0 ≤ x - magnitude code), abs_lt]
  constructor <;> linarith

theorem IsNearest.not_lt {x : ℚ} {code other : Nat} (h : IsNearest x code)
    (hother : IsNearest x other) :
  ¬ code < other
  := by
  intro hlt
  have htie := le_antisymm (h.le other) (hother.le code)
  have heven := h.even_of_tie (Nat.ne_of_gt hlt) htie
  have heven' := hother.even_of_tie (Nat.ne_of_lt hlt) htie.symm
  apply not_le_of_gt (succ_nearer_of_tie hlt heven heven' htie) (h.le _)

/-- There is one code to round to. -/
theorem IsNearest.unique {x : ℚ} {code other : Nat} (h : IsNearest x code)
    (hother : IsNearest x other) :
  code = other
  := Nat.le_antisymm (Nat.le_of_not_lt (hother.not_lt h)) (Nat.le_of_not_lt (h.not_lt hother))

/-! ### Numbers that are too large -/

/-- The numbers rounded to a code or below, for an odd code, are those below the midpoint to the
next code. -/
theorem IsNearest.le_iff {x : ℚ} {code bound : Nat} (h : IsNearest x code)
    (hodd : bound % 2 = 1) :
  code ≤ bound ↔ x < (magnitude bound + magnitude (bound + 1)) / 2
  := by
  have hsucc : magnitude bound < magnitude (bound + 1) := magnitude_strictMono (by omega)
  constructor
  · intro hle
    have hmono := magnitude_strictMono.monotone hle
    by_contra hge
    -- From the midpoint on, the next number is as near as the bound, so the code is the bound and
    -- there is a tie, for which the bound is not even.
    have hnearer : |x - magnitude (bound + 1)| ≤ x - magnitude bound := by
      rw [abs_le]
      constructor <;> linarith
    have hfar : x - magnitude code = |x - magnitude code| := by
      rw [abs_of_nonneg]
      linarith
    have htie := le_antisymm (h.le (bound + 1)) (by linarith)
    obtain rfl : code = bound := by
      apply magnitude_strictMono.injective
      linarith
    have heven := h.even_of_tie (Nat.succ_ne_self _) htie
    omega
  · intro hlt
    by_contra hgt
    have hmono : magnitude (bound + 1) ≤ magnitude code :=
      magnitude_strictMono.monotone (by omega)
    have hnearer : |x - magnitude bound| < magnitude code - x := by
      rw [abs_lt]
      constructor <;> linarith
    apply not_le_of_gt hnearer
    rw [← abs_of_nonneg (by linarith : 0 ≤ magnitude code - x), abs_sub_comm]
    apply h.le bound

theorem infinityCode_eq :
  infinityCode = 0x7FF0000000000000
  := by
  decide

/-- The midpoint between the greatest finite number and the number that the code of infinity would
have. -/
theorem magnitude_infinityCode_midpoint :
  (magnitude (infinityCode - 1) + magnitude infinityCode) / 2 = 2 ^ 1024 - 2 ^ 970
  := by
  have hgreatest : infinityCode - 1 = 2045 * exponentUnit + (2 * exponentUnit - 1) := by decide
  have hinfinity : infinityCode = 2045 * exponentUnit + 2 * exponentUnit := by decide
  have hpower : (2 : ℚ) ^ 2045 = 2 ^ 971 * 2 ^ 1074 := pow_add 2 971 1074
  have hpower' : (2 : ℚ) ^ 971 = 2 ^ 970 * 2 := pow_succ 2 970
  have hpower'' : (2 : ℚ) ^ 1024 = 2 ^ 970 * 2 ^ 54 := pow_add 2 970 54
  have hpos : (2 : ℚ) ^ 1074 ≠ 0 := by positivity
  rw [hgreatest, hinfinity, magnitude, magnitude, quanta_mul_add (by decide) (by decide),
    quanta_mul_add (by decide) (by decide), exponentUnit_eq, Nat.cast_mul, Nat.cast_mul,
    Nat.cast_pow, Nat.cast_ofNat, hpower, ← mul_assoc, ← mul_assoc,
    mul_div_cancel_right₀ _ hpos, mul_div_cancel_right₀ _ hpos, hpower', hpower'']
  generalize (2 : ℚ) ^ 970 = p
  norm_num
  ring

/-- The numbers rounded to a finite one. -/
theorem IsNearest.lt_infinityCode_iff {x : ℚ} {code : Nat} (h : IsNearest x code) :
  code < infinityCode ↔ x < 2 ^ 1024 - 2 ^ 970
  := by
  have hodd : (infinityCode - 1) % 2 = 1 := by decide
  have hsucc : infinityCode - 1 + 1 = infinityCode := by decide
  rw [← magnitude_infinityCode_midpoint, ← Nat.le_sub_one_iff_lt (by decide), h.le_iff hodd, hsucc]

/-! ### Decimal numbers -/

/-- A decimal is rounded to the nearest number. -/
theorem isNearest_nearestCode (d : Decimal) :
  IsNearest d.number (nearestCode d.units (Nat.pow 10 d.places))
  := by
  have hpos : 0 < Nat.pow 10 d.places := Nat.pow_pos (by decide)
  have hnearest := nearestCode_isNearest d.units hpos
  rwa [Nat.pow_eq, Nat.cast_pow, Nat.cast_ofNat] at hnearest

/-- The code of a decimal is the nearest one, if that is the code of a finite number. -/
theorem ofDecimal?_eq_some_iff {d : Decimal} {code : Nat} :
  ofDecimal? d = some code ↔ IsNearest d.number code ∧ code < infinityCode
  := by
  dsimp only [ofDecimal?]
  rw [Option.ite_none_right_eq_some, Option.some_inj]
  constructor
  · rintro ⟨h, rfl⟩
    exact ⟨isNearest_nearestCode d, h⟩
  · rintro ⟨hnearest, h⟩
    obtain rfl := (isNearest_nearestCode d).unique hnearest
    exact ⟨h, rfl⟩

end Abacus.Binary64
