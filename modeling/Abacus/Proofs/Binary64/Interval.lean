import Mathlib
import Abacus.Proofs.Binary64.Nearest

/-!
# The numbers that are rounded to a code

They make up an interval, `IsNearest.between`, which goes at most to the midpoints to the numbers
of the codes next to it. The next number is at most twice the number of a code other than zero,
`magnitude_succ_le`, and from the tenth code on the interval is so narrow that the greatest number
in it is less than ten ninths of the least, `IsNearest.code_le_nine`.
-/

namespace Abacus.Binary64

section

variable {x y y' : ℚ} {code other : Nat}

/-! ### An interval -/

/-- The smaller of two numbers is nearer below their midpoint. -/
theorem abs_sub_lt_iff_of_lt {a b : ℚ} (hlt : a < b) (y : ℚ) :
  |y - a| < |y - b| ↔ 2 * y < a + b
  := by
  rw [← sq_lt_sq]
  constructor
  · intro h
    by_contra hge
    nlinarith
  · intro h
    nlinarith

/-- The greater of two numbers is nearer above their midpoint. -/
theorem abs_sub_lt_iff_of_gt {a b : ℚ} (hgt : b < a) (y : ℚ) :
  |y - a| < |y - b| ↔ a + b < 2 * y
  := by
  rw [← sq_lt_sq]
  constructor
  · intro h
    by_contra hge
    nlinarith
  · intro h
    nlinarith

theorem abs_sub_eq_iff {a b : ℚ} (hne : a ≠ b) (y : ℚ) :
  |y - a| = |y - b| ↔ 2 * y = a + b
  := by
  rw [abs_eq_abs]
  constructor
  · rintro (heq | heq)
    · exact absurd (sub_right_injective heq) hne
    · linarith
  · intro h
    right
    linarith

namespace IsNearest

/-- What is rounded to a code is not beyond the midpoint to a greater one. -/
theorem two_mul_le (h : IsNearest y code) (hlt : code < other) :
  2 * y ≤ magnitude code + magnitude other
  := by
  have hmagnitude := magnitude_strictMono hlt
  rcases h other hlt.ne' with hnear | ⟨htie, -⟩
  · apply ((abs_sub_lt_iff_of_lt hmagnitude y).mp hnear).le
  · apply ((abs_sub_eq_iff hmagnitude.ne y).mp htie).le

/-- What is rounded to a code is not beyond the midpoint to a smaller one. -/
theorem le_two_mul (h : IsNearest y code) (hlt : other < code) :
  magnitude code + magnitude other ≤ 2 * y
  := by
  have hmagnitude := magnitude_strictMono hlt
  rcases h other hlt.ne with hnear | ⟨htie, -⟩
  · apply ((abs_sub_lt_iff_of_gt hmagnitude y).mp hnear).le
  · apply ((abs_sub_eq_iff hmagnitude.ne' y).mp htie).ge

/-- What lies between two numbers that are rounded to a code is rounded to it. -/
theorem between (h : IsNearest x code) (h' : IsNearest y' code) (hle : x ≤ y) (hle' : y ≤ y') :
  IsNearest y code
  := by
  intro other hne
  rcases Nat.lt_or_gt_of_ne hne with hlt | hgt
  · have hmagnitude := magnitude_strictMono hlt
    rcases hle.lt_or_eq with hlt' | rfl
    · left
      rw [abs_sub_lt_iff_of_gt hmagnitude]
      linarith [h.le_two_mul hlt]
    · apply h other hne
  · have hmagnitude := magnitude_strictMono hgt
    rcases hle'.lt_or_eq with hlt' | rfl
    · left
      rw [abs_sub_lt_iff_of_lt hmagnitude]
      linarith [h'.two_mul_le hgt]
    · apply h' other hne

/-- Only positive numbers are rounded to a code other than zero. -/
theorem pos (h : IsNearest y code) (hcode : code ≠ 0) :
  0 < y
  := by
  have hlt := magnitude_strictMono (Nat.pos_of_ne_zero hcode)
  have hle := h.le_two_mul (Nat.pos_of_ne_zero hcode)
  rw [magnitude_zero] at hlt hle
  linarith

end IsNearest

end

/-! ### Its width -/

/-- From a number to the next one it is the unit of its significand. -/
theorem quanta_succ (code : Nat) :
  quanta (code + 1) = quanta code + 2 ^ scale code
  := by
  have hleading : scale code = 0 ∨ exponentUnit ≤ significand code + 1 := by
    by_cases h : scale code = 0
    · exact .inl h
    · exact .inr (Nat.le_succ_of_le (exponentUnit_le_significand h))
  have hsucc := quanta_mul_add (significand_lt code) hleading
  rw [Nat.succ_eq_add_one, ← Nat.add_assoc, scale_mul_add_significand] at hsucc
  rw [hsucc, quanta_eq, Nat.succ_mul]

theorem scale_mono {code other : Nat} (h : code ≤ other) :
  scale code ≤ scale other
  := Nat.sub_le_sub_right (Nat.div_le_div_right h) 1

/-- A code that is not least among its size is a significand of that size at least. -/
theorem le_significand {code n : Nat} (h : n ≤ code) (hn : n ≤ exponentUnit) :
  n ≤ significand code
  := by
  by_cases hscale : scale code = 0
  · have heq := scale_mul_add_significand code
    rw [hscale, Nat.zero_mul, Nat.zero_add] at heq
    rwa [heq]
  · apply hn.trans (exponentUnit_le_significand hscale)

/-- The number of a code is so many units of its significand at least. -/
theorem mul_le_quanta {code n : Nat} (h : n ≤ code) (hn : n ≤ exponentUnit) :
  n * 2 ^ scale code ≤ quanta code
  := by
  rw [quanta_eq]
  apply Nat.mul_le_mul_right _ (le_significand h hn)

theorem magnitude_succ_le {code : Nat} (hcode : code ≠ 0) :
  magnitude (code + 1) ≤ 2 * magnitude code
  := by
  have hpos : (0 : ℚ) < 2 ^ 1074 := by positivity
  have hle : quanta (code + 1) ≤ 2 * quanta code := by
    have hunit := mul_le_quanta (Nat.pos_of_ne_zero hcode) (by decide : 1 ≤ exponentUnit)
    rw [quanta_succ]
    omega
  rw [magnitude, magnitude, ← mul_div_assoc, div_le_div_iff_of_pos_right hpos]
  exact_mod_cast hle

/-- Around a code of ten at least, the midpoints to its neighbours are less than ten ninths apart. -/
theorem nine_mul_quanta_lt {code : Nat} (h : 10 ≤ code + 1) :
  9 * quanta (code + 2) < 10 * quanta code + quanta (code + 1)
  := by
  have hunits := mul_le_quanta h (by decide : 10 ≤ exponentUnit)
  have hscale : 2 ^ scale code ≤ 2 ^ scale (code + 1) :=
    Nat.pow_le_pow_right Nat.two_pos (scale_mono (Nat.le_succ code))
  have hpos := Nat.two_pow_pos (scale (code + 1))
  have hsucc := quanta_succ code
  rw [quanta_succ (code + 1)]
  omega

theorem nine_mul_magnitude_lt {code : Nat} (h : 10 ≤ code + 1) :
  9 * magnitude (code + 2) < 10 * magnitude code + magnitude (code + 1)
  := by
  have hpos : (0 : ℚ) < 2 ^ 1074 := by positivity
  have hlt := nine_mul_quanta_lt h
  rw [magnitude, magnitude, magnitude, ← mul_div_assoc, ← mul_div_assoc, ← add_div,
    div_lt_div_iff_of_pos_right hpos]
  exact_mod_cast hlt

/-- Two numbers of which one is ten ninths of the other are rounded to the same code only among the
first codes. -/
theorem IsNearest.code_le_nine {x y : ℚ} {code : Nat} (h : IsNearest x code)
    (h' : IsNearest y code) (hle : 10 * y ≤ 9 * x) :
  code ≤ 9
  := by
  by_contra hgt
  obtain ⟨c, rfl⟩ : ∃ c, code = c + 1 := ⟨code - 1, by omega⟩
  have habove := h.two_mul_le (Nat.lt_succ_self _)
  have hbelow := h'.le_two_mul (Nat.lt_succ_self _)
  linarith [nine_mul_magnitude_lt (by omega : 10 ≤ c + 1)]

end Abacus.Binary64
