import Mathlib
import Abacus.Proofs.Binary64.Bits

/-!
# Rounding a number to a value

A finite value stands for a rational number, `exactValue`. `RoundsTo x value` says that `value` is
the finite value nearest to `x`, and that it has an even significand where another one is as near.
The value with the code nearest to the magnitude of a number, behind the sign of the number, is
such a value, `IsNearest.roundsTo`, and it is the only one with its sign, `RoundsTo.unique`.
-/

namespace Abacus

open Binary64
open Float.Model (UnpackedFloat)
open Float.Model.UnpackedFloat

/-! ### The number of a value -/

/-- The number that an unpacked value stands for, or zero if it stands for none. -/
def unpackedNumber : UnpackedFloat → ℚ
  | .finite sign significand exponent _ => sign.apply significand * 2 ^ exponent
  | _ => 0

/-- The significand of an unpacked value, or zero if it has none. -/
def unpackedSignificand : UnpackedFloat → Nat
  | .finite _ significand _ _ => significand
  | _ => 0

/-- The number that a finite value stands for. -/
def exactValue (value : Float) : ℚ :=
  unpackedNumber value.toModel.unpack

/-- The significand of a finite value. -/
def significandOf (value : Float) : Nat :=
  unpackedSignificand value.toModel.unpack

/-- The number of a magnitude behind a sign. -/
def signed (negative : Bool) (x : ℚ) : ℚ :=
  if negative then -x else x

theorem unpack_of_isFinite {value : Float} (h : value.isFinite) :
  value.toModel.unpack =
    if hzero : significand (codeOf value) = 0 then .zero (signOf (signBit value))
    else .finite (signOf (signBit value)) (significand (codeOf value))
      (scale (codeOf value) - 1074) (Nat.pos_of_ne_zero hzero)
  := unpack_of_lt (toNat_toBitVec_toModel value) ((isFinite_iff value).mp h)

theorem significandOf_mod_two {value : Float} (h : value.isFinite) :
  significandOf value % 2 = codeOf value % 2
  := by
  rw [significandOf, unpack_of_isFinite h, ← significand_mod_two (codeOf value)]
  split
  · next hzero =>
    rw [hzero]
    rfl
  · rfl

theorem magnitude_eq_zpow (code : Nat) :
  magnitude code = significand code * 2 ^ ((scale code : ℤ) - 1074)
  := by
  rw [magnitude, quanta_eq, zpow_sub₀ two_ne_zero, zpow_natCast, zpow_ofNat, Nat.cast_mul,
    Nat.cast_pow, Nat.cast_ofNat, mul_div_assoc]

theorem apply_signOf (negative : Bool) (n : Nat) :
  ((signOf negative).apply n : ℚ) = signed negative n
  := by
  cases negative
  · rfl
  · simp [signOf, signed, Sign.apply]

theorem signed_mul (negative : Bool) (x y : ℚ) :
  signed negative x * y = signed negative (x * y)
  := by
  rw [signed, signed]
  split
  · apply neg_mul
  · rfl

/-- The number of a finite value is that of its code, behind its sign bit. -/
theorem exactValue_eq {value : Float} (h : value.isFinite) :
  exactValue value = signed (signBit value) (magnitude (codeOf value))
  := by
  rw [exactValue, unpack_of_isFinite h, magnitude_eq_zpow, ← signed_mul, ← apply_signOf]
  split
  · next hzero =>
    rw [hzero, apply_signOf]
    simp [unpackedNumber, signed]
  · rfl

/-! ### Rounding -/

/-- The value is finite, no finite value is nearer to `x`, and if one that stands for another number
is as near, the value has an even significand. -/
structure RoundsTo (x : ℚ) (value : Float) : Prop where
  finite : value.isFinite
  nearest : ∀ other : Float, other.isFinite →
    |x - exactValue value| ≤ |x - exactValue other|
  even_of_tie : ∀ other : Float, other.isFinite → exactValue other ≠ exactValue value →
    |x - exactValue value| = |x - exactValue other| → significandOf value % 2 = 0

section

variable {x : ℚ} (negative : Bool)

theorem abs_signed_sub_signed (y : ℚ) :
  |signed negative x - signed negative y| = |x - y|
  := by
  cases negative
  · rfl
  · rw [signed, signed, if_pos rfl, if_pos rfl, neg_sub_neg, abs_sub_comm]

/-- A number is not nearer to a magnitude behind the other sign. -/
theorem abs_sub_le_abs_signed_sub_signed (other : Bool) (hx : 0 ≤ x) {y : ℚ} (hy : 0 ≤ y) :
  |x - y| ≤ |signed negative x - signed other y|
  := by
  have hsum : |x - y| ≤ x + y := by
    rw [abs_le]
    constructor <;> linarith
  cases negative <;> cases other <;> simp only [signed, if_true, Bool.false_eq_true, if_false]
  · rfl
  · rw [sub_neg_eq_add, abs_of_nonneg (add_nonneg hx hy)]
    apply hsum
  · rw [← neg_add', abs_neg, abs_of_nonneg (add_nonneg hx hy)]
    apply hsum
  · rw [neg_sub_neg, abs_sub_comm]

/-- It is as near only if it is zero or the number is. -/
theorem eq_or_eq_zero_of_tie {other : Bool} (hx : 0 ≤ x) {y : ℚ} (hy : 0 ≤ y)
    (htie : |x - y| = |signed negative x - signed other y|) :
  other = negative ∨ x = 0 ∨ y = 0
  := by
  by_cases hsign : other = negative
  · exact .inl hsign
  · right
    obtain rfl : negative = !other := Bool.eq_not_of_ne fun heq => hsign heq.symm
    have hopposite : |signed (!other) x - signed other y| = |x + y| := by
      cases other
      · rw [← abs_neg]
        congr 1
        simp [signed]
        ring
      · simp [signed]
    rw [hopposite, abs_eq_abs] at htie
    rcases htie with heq | heq
    · right
      linarith
    · left
      linarith

/-- The nearest code is rounded to, behind the sign of the number. -/
theorem Binary64.IsNearest.roundsTo {code : Nat} (h : IsNearest x code) (hx : 0 ≤ x)
    (hfinite : code < infinityCode) :
  RoundsTo (signed negative x) (valueOfCode negative code)
  := by
  have hcode := codeOf_valueOfCode negative hfinite.le
  have hisFinite : (valueOfCode negative code).isFinite := by
    rw [isFinite_iff, hcode]
    apply hfinite
  have hvalue : exactValue (valueOfCode negative code) = signed negative (magnitude code) := by
    rw [exactValue_eq hisFinite, hcode, signBit_valueOfCode negative hfinite.le]
  have hother : ∀ other : Float, other.isFinite →
      |x - magnitude (codeOf other)| ≤ |signed negative x - exactValue other| := by
    intro other hother
    rw [exactValue_eq hother]
    apply abs_sub_le_abs_signed_sub_signed negative _ hx (magnitude_nonneg _)
  constructor
  case finite => apply hisFinite
  case nearest =>
    intro other hfin
    rw [hvalue, abs_signed_sub_signed]
    apply (h.le _).trans (hother other hfin)
  case even_of_tie =>
    intro other hfin hne htie
    rw [hvalue, abs_signed_sub_signed] at htie
    have htie' := le_antisymm (h.le (codeOf other)) ((hother other hfin).trans_eq htie.symm)
    rw [significandOf_mod_two hisFinite, hcode]
    by_cases heq : codeOf other = code
    · rw [exactValue_eq hfin, heq] at htie hne
      obtain hsign | rfl | hzero := eq_or_eq_zero_of_tie negative hx (magnitude_nonneg code) htie
      · rw [hvalue, hsign] at hne
        exact absurd rfl hne
      · rw [← magnitude_zero] at h
        rw [h.unique (isNearest_magnitude 0)]
      · rw [← magnitude_zero] at hzero
        rw [magnitude_strictMono.injective hzero]
    · apply h.even_of_tie heq htie'

end

/-! ### There is one value to round to -/

theorem signed_signed (negative : Bool) (x : ℚ) :
  signed negative (signed negative x) = x
  := by
  cases negative
  · rfl
  · rw [signed, signed, if_pos rfl, if_pos rfl, neg_neg]

/-- The distance of a number to a finite value is that of magnitudes behind the sign of the
value. -/
theorem abs_sub_exactValue {value : Float} (h : value.isFinite) (x : ℚ) :
  |x - exactValue value| = |signed (signBit value) x - magnitude (codeOf value)|
  := by
  rw [exactValue_eq h, ← abs_signed_sub_signed (signBit value), signed_signed]

theorem codeOf_eq_of_exactValue_eq {value other : Float} (h : value.isFinite)
    (hother : other.isFinite) (hsign : signBit other = signBit value)
    (heq : exactValue value = exactValue other) :
  codeOf value = codeOf other
  := by
  have hsigned := congrArg (signed (signBit value)) heq
  rw [exactValue_eq h, exactValue_eq hother, hsign, signed_signed, signed_signed] at hsigned
  apply magnitude_strictMono.injective hsigned

namespace RoundsTo

variable {x : ℚ} {value other : Float}

theorem not_lt (h : RoundsTo x value) (hother : RoundsTo x other)
    (hsign : signBit other = signBit value) :
  ¬ codeOf value < codeOf other
  := by
  intro hlt
  have hne : exactValue value ≠ exactValue other := fun heq =>
    Nat.ne_of_lt hlt (codeOf_eq_of_exactValue_eq h.finite hother.finite hsign heq)
  have htie := le_antisymm (h.nearest _ hother.finite) (hother.nearest _ h.finite)
  have heven := h.even_of_tie _ hother.finite hne.symm htie
  have heven' := hother.even_of_tie _ h.finite hne htie.symm
  rw [significandOf_mod_two h.finite] at heven
  rw [significandOf_mod_two hother.finite] at heven'
  rw [abs_sub_exactValue h.finite, abs_sub_exactValue hother.finite, hsign] at htie
  have hnearer := succ_nearer_of_tie hlt heven heven' htie
  -- The code between the two is that of a finite value with the same sign.
  have hfinite : codeOf value + 1 < infinityCode :=
    Nat.lt_of_le_of_lt hlt ((isFinite_iff other).mp hother.finite)
  have hcode := codeOf_valueOfCode (signBit value) hfinite.le
  have hbetween : (valueOfCode (signBit value) (codeOf value + 1)).isFinite := by
    rw [isFinite_iff, hcode]
    apply hfinite
  have hnearest := h.nearest _ hbetween
  rw [abs_sub_exactValue h.finite, abs_sub_exactValue hbetween, hcode,
    signBit_valueOfCode _ hfinite.le] at hnearest
  apply not_le_of_gt hnearer hnearest

/-- There is one value of either sign to round to. -/
theorem unique (h : RoundsTo x value) (hother : RoundsTo x other)
    (hsign : signBit other = signBit value) :
  value = other
  := by
  have hcode : codeOf value = codeOf other :=
    Nat.le_antisymm (Nat.le_of_not_lt (hother.not_lt h hsign.symm))
      (Nat.le_of_not_lt (h.not_lt hother hsign))
  apply eq_of_toNat_toBits_eq
  rw [toNat_toBits, toNat_toBits, hcode, hsign]

end RoundsTo

end Abacus
