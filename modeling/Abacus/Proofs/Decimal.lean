import Mathlib
import Abacus.Decimal

/-!
# Reading and writing decimal numbers

`DenotesDecimal chars x` is the notation of decimal numbers: digits with at most one dot before,
among or behind them denote the sum of the digits before the dot and of those behind it, each by its
weight. `Decimal.ofChars?` reads exactly these, `denotesDecimal_iff`, and what `Decimal.write`
writes denotes the number, `Decimal.denotesDecimal_write`.
-/

namespace Abacus

/-- The characters are digits, with at most one dot among them, and denote the number. -/
inductive DenotesDecimal : List Char → ℚ → Prop where
  | whole {digits : List Char} (hne : digits ≠ []) (hdigits : ∀ c ∈ digits, c.isDigit) :
      DenotesDecimal digits (Nat.ofDigitChars 10 digits 0)
  | dotted {whole fraction : List Char} (hne : whole ++ fraction ≠ [])
      (hdigits : ∀ c ∈ whole ++ fraction, c.isDigit) :
      DenotesDecimal (whole ++ '.' :: fraction)
        (Nat.ofDigitChars 10 whole 0 + Nat.ofDigitChars 10 fraction 0 / 10 ^ fraction.length)

namespace Decimal

/-- The number of a decimal. -/
def number (d : Decimal) : ℚ :=
  d.units / 10 ^ d.places

theorem number_nonneg (d : Decimal) :
  0 ≤ d.number
  := by
  rw [number]
  positivity

/-! ### Reading -/

theorem ofChars?_of_no_dot {digits : List Char} (hdot : '.' ∉ digits) :
  ofChars? digits =
    if digits ≠ [] ∧ digits.all Char.isDigit then some ⟨Nat.ofDigitChars 10 digits 0, 0⟩ else none
  := by
  have hne : ∀ c ∈ digits, (c != '.') = true := by
    intro c hc
    rw [bne_iff_ne]
    apply ne_of_mem_of_not_mem hc hdot
  have hwhole : digits.takeWhile (· != '.') = digits := List.takeWhile_eq_self_iff.mpr hne
  have hrest : digits.dropWhile (· != '.') = [] := List.dropWhile_eq_nil_iff.mpr hne
  rw [ofChars?, hwhole, hrest, List.drop_nil, List.append_nil, List.length_nil]

theorem ofChars?_of_dot {whole : List Char} (hdot : '.' ∉ whole) (fraction : List Char) :
  ofChars? (whole ++ '.' :: fraction) =
    if whole ++ fraction ≠ [] ∧ (whole ++ fraction).all Char.isDigit then
      some ⟨Nat.ofDigitChars 10 (whole ++ fraction) 0, fraction.length⟩
    else none
  := by
  have hne : ∀ c ∈ whole, (c != '.') = true := by
    intro c hc
    rw [bne_iff_ne]
    apply ne_of_mem_of_not_mem hc hdot
  have hwhole : (whole ++ '.' :: fraction).takeWhile (· != '.') = whole := by
    rw [List.takeWhile_append_of_pos hne, List.takeWhile_cons_of_neg (by decide), List.append_nil]
  have hrest : (whole ++ '.' :: fraction).dropWhile (· != '.') = '.' :: fraction := by
    rw [List.dropWhile_append_of_pos hne, List.dropWhile_cons_of_neg (by decide)]
  rw [ofChars?, hwhole, hrest, List.drop_one, List.tail_cons]

/-- The digits on both sides of a dot, in units of the last place. -/
theorem ofDigitChars_append_div (whole fraction : List Char) :
  (Nat.ofDigitChars 10 (whole ++ fraction) 0 / 10 ^ fraction.length : ℚ)
    = Nat.ofDigitChars 10 whole 0 + Nat.ofDigitChars 10 fraction 0 / 10 ^ fraction.length
  := by
  have hpos : (10 : ℚ) ^ fraction.length ≠ 0 := by positivity
  rw [Nat.ofDigitChars_append, Nat.ofDigitChars_eq_ofDigitChars_zero, Nat.cast_add, add_div,
    Nat.cast_mul, Nat.cast_pow, Nat.cast_ofNat, mul_div_cancel_left₀ _ hpos]

theorem dot_notMem {digits : List Char} (hdigits : ∀ c ∈ digits, c.isDigit) :
  '.' ∉ digits
  := by
  intro hmem
  exact absurd (hdigits _ hmem) (by decide)

theorem denotesDecimal_of_digits {digits : List Char} (hne : digits ≠ [])
    (hdigits : ∀ c ∈ digits, c.isDigit) :
  DenotesDecimal digits (number ⟨Nat.ofDigitChars 10 digits 0, 0⟩)
  := by
  rw [number, pow_zero, div_one]
  apply DenotesDecimal.whole hne hdigits

theorem denotesDecimal_of_dot {whole fraction : List Char} (hne : whole ++ fraction ≠ [])
    (hdigits : ∀ c ∈ whole ++ fraction, c.isDigit) :
  DenotesDecimal (whole ++ '.' :: fraction)
    (number ⟨Nat.ofDigitChars 10 (whole ++ fraction) 0, fraction.length⟩)
  := by
  rw [number, ofDigitChars_append_div]
  apply DenotesDecimal.dotted hne hdigits

end Decimal

/-- Exactly the decimal numbers are read. -/
theorem denotesDecimal_iff {chars : List Char} {x : ℚ} :
  DenotesDecimal chars x ↔ ∃ d, Decimal.ofChars? chars = some d ∧ d.number = x
  := by
  constructor
  · rintro (⟨hne, hdigits⟩ | @⟨whole, fraction, hne, hdigits⟩)
    · have hdot := Decimal.dot_notMem hdigits
      rw [Decimal.ofChars?_of_no_dot hdot, if_pos ⟨hne, List.all_eq_true.mpr hdigits⟩]
      use ⟨Nat.ofDigitChars 10 chars 0, 0⟩, rfl
      rw [Decimal.number, pow_zero, div_one]
    · have hdot := Decimal.dot_notMem fun c hc => hdigits c (List.mem_append_left _ hc)
      rw [Decimal.ofChars?_of_dot hdot, if_pos ⟨hne, List.all_eq_true.mpr hdigits⟩]
      use ⟨Nat.ofDigitChars 10 (whole ++ fraction) 0, fraction.length⟩, rfl
      apply Decimal.ofDigitChars_append_div
  · rintro ⟨d, hd, rfl⟩
    by_cases hdot : '.' ∈ chars
    · obtain ⟨whole, fraction, rfl, hwhole⟩ := List.eq_append_cons_of_mem hdot
      rw [Decimal.ofChars?_of_dot hwhole, Option.ite_none_right_eq_some] at hd
      obtain ⟨⟨hne, hdigits⟩, ⟨⟩⟩ := hd
      apply Decimal.denotesDecimal_of_dot hne (List.all_eq_true.mp hdigits)
    · rw [Decimal.ofChars?_of_no_dot hdot, Option.ite_none_right_eq_some] at hd
      obtain ⟨⟨hne, hdigits⟩, ⟨⟩⟩ := hd
      apply Decimal.denotesDecimal_of_digits hne (List.all_eq_true.mp hdigits)

/-! ### Writing -/

namespace Decimal

theorem number_normalize (units places : Nat) :
  (normalize units places).number = number ⟨units, places⟩
  := by
  fun_induction normalize units places with
  | case1 units => rfl
  | case2 units places h ih =>
    have hunits : (units : ℚ) = (units / 10 : Nat) * 10 := by
      exact_mod_cast (Nat.div_mul_cancel (Nat.dvd_of_mod_eq_zero h)).symm
    rw [ih, number, number, hunits, pow_succ, mul_div_mul_right _ _ (by decide)]
  | case3 units places h => rfl

/-- The digits of a fraction, with zeros before them up to the number of places. -/
def fractionDigits (m places : Nat) : List Char :=
  List.leftpad places '0' (Nat.toDigits 10 m)

theorem length_fractionDigits {m places : Nat} (h : m < 10 ^ places) (hplaces : places ≠ 0) :
  (fractionDigits m places).length = places
  := by
  have hle := (Nat.length_toDigits_le_iff (by decide) (Nat.pos_of_ne_zero hplaces)).mpr h
  rw [fractionDigits, List.length_leftpad, Nat.max_eq_left hle]

theorem ofDigitChars_fractionDigits (m places : Nat) :
  Nat.ofDigitChars 10 (fractionDigits m places) 0 = m
  := by
  rw [fractionDigits, List.leftpad, Nat.ofDigitChars_append, Nat.ofDigitChars_replicate_zero,
    Nat.mul_zero, Nat.ofDigitChars_ten_toDigits]

theorem isDigit_of_mem_toDigits {n : Nat} {c : Char} (hc : c ∈ Nat.toDigits 10 n) :
  c.isDigit
  := Nat.isDigit_of_mem_toDigits (by decide) (by decide) hc

theorem isDigit_of_mem_fractionDigits {m places : Nat} {c : Char}
    (hc : c ∈ fractionDigits m places) :
  c.isDigit
  := by
  rcases List.mem_append.mp hc with hzero | hdigit
  · rw [List.eq_of_mem_replicate hzero]
    decide
  · apply isDigit_of_mem_toDigits hdigit

theorem toList_writePlaces (d : Decimal) :
  d.writePlaces.toList =
    if d.places = 0 then Nat.toDigits 10 (d.units / 10 ^ d.places)
    else Nat.toDigits 10 (d.units / 10 ^ d.places)
      ++ '.' :: fractionDigits (d.units % 10 ^ d.places) d.places
  := by
  rw [writePlaces, String.toList_ofList]
  rfl

/-- What is written denotes the number. -/
theorem denotesDecimal_writePlaces (d : Decimal) :
  DenotesDecimal d.writePlaces.toList d.number
  := by
  obtain ⟨units, places⟩ := d
  rw [toList_writePlaces]
  by_cases hplaces : places = 0
  · subst hplaces
    have hwhole := denotesDecimal_of_digits (@Nat.toDigits_ne_nil units 10)
      fun c hc => isDigit_of_mem_toDigits hc
    rw [Nat.ofDigitChars_ten_toDigits] at hwhole
    rwa [if_pos rfl, pow_zero, Nat.div_one]
  · have hlength := length_fractionDigits (Nat.mod_lt units (Nat.pow_pos (by decide))) hplaces
    have hdotted := denotesDecimal_of_dot
      (List.append_ne_nil_of_left_ne_nil (@Nat.toDigits_ne_nil (units / 10 ^ places) 10)
        (fractionDigits (units % 10 ^ places) places))
      fun c hc => (List.mem_append.mp hc).elim isDigit_of_mem_toDigits
        isDigit_of_mem_fractionDigits
    rw [Nat.ofDigitChars_append, Nat.ofDigitChars_eq_ofDigitChars_zero, hlength,
      ofDigitChars_fractionDigits, Nat.ofDigitChars_ten_toDigits, Nat.div_add_mod] at hdotted
    rwa [if_neg hplaces]

/-- What is written denotes the number, also with no more places than it needs. -/
theorem denotesDecimal_write (d : Decimal) :
  DenotesDecimal d.write.toList d.number
  := by
  rw [write, ← number_normalize d.units d.places]
  apply denotesDecimal_writePlaces

end Decimal

end Abacus
