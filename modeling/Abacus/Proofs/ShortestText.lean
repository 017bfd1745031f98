import Mathlib
import Abacus.Proofs.Binary64.SignificantDigits
import Abacus.Proofs.PlainNotation
import Abacus.Proofs.ResultText

/-!
# The shortest text of a result

A number that is rounded to a value other than zero has the sign of the value, and its magnitude is
rounded to the code of the value: `RoundsWithin.isNearest`. So what holds of the decimals that are
rounded to a code holds of all decimals that are rounded to a value, and the text of a finite value
is the shortest one in plain notation, `resultText_shortest`.
-/

namespace Abacus

open Binary64

/-- The number is rounded to the value, and is not too large for the format. -/
structure RoundsWithin (x : ℚ) (value : Float) : Prop extends RoundsTo x value where
  abs_lt : |x| < 2 ^ 1024 - 2 ^ 970

/-! ### Signs -/

theorem isFinite_valueOfCode (negative : Bool) {code : Nat} (h : code < infinityCode) :
  (valueOfCode negative code).isFinite
  := by
  rw [isFinite_iff, codeOf_valueOfCode negative h.le]
  apply h

theorem exactValue_valueOfCode (negative : Bool) {code : Nat} (h : code < infinityCode) :
  exactValue (valueOfCode negative code) = signed negative (magnitude code)
  := by
  rw [exactValue_eq (isFinite_valueOfCode negative h), codeOf_valueOfCode negative h.le,
    signBit_valueOfCode negative h.le]

theorem abs_signed (negative : Bool) (x : ℚ) :
  |signed negative x| = |x|
  := by
  cases negative
  · rfl
  · apply abs_neg

theorem signed_abs (x : ℚ) :
  signed (x < 0) |x| = x
  := by
  simp only [signed, decide_eq_true_eq]
  split
  · next hneg => rw [abs_of_neg hneg, neg_neg]
  · next hnonneg => rw [abs_of_nonneg (not_lt.mp hnonneg)]

section

variable {value : Float} (h : value.isFinite)

include h

theorem exactValue_eq_zero_iff :
  exactValue value = 0 ↔ codeOf value = 0
  := by
  rw [exactValue_eq h, ← abs_eq_zero, abs_signed, abs_eq_zero, ← magnitude_zero,
    magnitude_strictMono.injective.eq_iff]

/-- The sign bit of a value other than zero is that of its number. -/
theorem signBit_eq (hne : exactValue value ≠ 0) :
  signBit value = decide (exactValue value < 0)
  := by
  have hpos : 0 < magnitude (codeOf value) := by
    rw [ne_eq, exactValue_eq_zero_iff h] at hne
    rw [← magnitude_zero]
    apply magnitude_strictMono (Nat.pos_of_ne_zero hne)
  rw [exactValue_eq h]
  cases signBit value
  · rw [signed, if_neg Bool.false_ne_true, decide_eq_false hpos.not_gt]
  · rw [signed, if_pos rfl, decide_eq_true (neg_neg_of_pos hpos)]

end

/-! ### Numbers rounded to a value -/

theorem exists_isNearest {x : ℚ} (hx : 0 ≤ x) :
  ∃ code, IsNearest x code
  := by
  have hfraction : (x.num.natAbs / x.den : ℚ) = x := by
    rw [Nat.cast_natAbs, abs_of_nonneg (Rat.num_nonneg.mpr hx), Rat.num_div_den]
  use nearestCode x.num.natAbs x.den
  have hnearest := nearestCode_isNearest x.num.natAbs x.den_pos
  rwa [hfraction] at hnearest

/-- What is rounded to a value other than zero is on the same side of zero. -/
theorem RoundsTo.lt_zero_iff {x : ℚ} {value : Float} (h : RoundsTo x value)
    (hne : exactValue value ≠ 0) :
  x < 0 ↔ exactValue value < 0
  := by
  have hzero := h.nearest _ (isFinite_valueOfCode false (by decide : 0 < infinityCode))
  rw [exactValue_valueOfCode false (by decide), magnitude_zero, signed, if_neg Bool.false_ne_true,
    sub_zero, ← sq_le_sq] at hzero
  have hsquare : 0 < exactValue value ^ 2 := by positivity
  have hpos : 0 < x * exactValue value := by nlinarith
  constructor
  · intro hlt
    apply neg_of_mul_pos_right hpos hlt.le
  · intro hlt
    apply neg_of_mul_pos_left hpos hlt.le

/-- The magnitude of a number is rounded to the code of the value to which the number is rounded, and
the sign of the number is the sign bit. -/
theorem RoundsWithin.isNearest {x : ℚ} {value : Float} (h : RoundsWithin x value)
    (hne : exactValue value ≠ 0) :
  IsNearest |x| (codeOf value) ∧ signed (signBit value) |x| = x
  := by
  obtain ⟨code, hcode⟩ := exists_isNearest (abs_nonneg x)
  have hfinite := hcode.lt_infinityCode_iff.mpr h.abs_lt
  have hrounds := hcode.roundsTo (x < 0) (abs_nonneg x) hfinite
  have hsign : signBit value = decide (x < 0) := by
    rw [signBit_eq h.finite hne, decide_eq_decide, h.toRoundsTo.lt_zero_iff hne]
  rw [signed_abs] at hrounds
  rw [hsign, signed_abs, h.toRoundsTo.unique hrounds ((signBit_valueOfCode _ hfinite.le).trans
    hsign.symm), codeOf_valueOfCode _ hfinite.le]
  exact ⟨hcode, rfl⟩

/-- The shortest decimal of the code of a value is rounded to the value, behind its sign bit. -/
theorem roundsWithin_shortest {value : Float} (h : value.isFinite) :
  RoundsWithin (signed (signBit value) (shortest (codeOf value)).number) value
  := by
  have hlt := (isFinite_iff value).mp h
  have hnearest := isNearest_shortest (codeOf value)
  have hnonneg := (shortest (codeOf value)).number_nonneg
  have hrounds := hnearest.roundsTo (signBit value) hnonneg hlt
  rw [valueOfCode_codeOf hlt.le] at hrounds
  constructor
  · apply hrounds
  · rw [abs_signed, abs_of_nonneg hnonneg]
    apply hnearest.lt_infinityCode_iff.mp hlt

/-! ### The text -/

/-- The text of a finite value has the fewest digits of all decimals that are rounded to the value,
and of those with as many digits none is nearer. It is in plain notation, behind a minus sign for a
negative value. A zero is written behind a minus sign if its sign bit is set. -/
theorem resultText_shortest {value : Float} (h : value.isFinite) :
  (exactValue value = 0 → resultText value = if signBit value then "-0" else "0")
    ∧ (exactValue value ≠ 0 → ∃ chars x,
      (resultText value).toList = (if exactValue value < 0 then ['-'] else []) ++ chars
        ∧ PlainNotation chars ∧ DenotesDecimal chars x
        ∧ RoundsWithin (signed (exactValue value < 0) x) value
        ∧ ∀ n y, RoundsWithin y value → HasDigits n y →
          HasDigits n x ∧ ((∀ k < n, ¬ HasDigits k x) →
            |signed (exactValue value < 0) x - exactValue value| ≤ |y - exactValue value|))
  := by
  rw [resultText, resultStyle.write_of_isFinite h]
  constructor
  · intro hzero
    rw [(exactValue_eq_zero_iff h).mp hzero, shortest_zero, Decimal.write_zero]
    cases signBit value <;> rfl
  · intro hne
    have hcode := (exactValue_eq_zero_iff h).not.mp hne
    obtain ⟨e, hchosen⟩ := exists_chosen_shortest hcode
    have hsign := signBit_eq h hne
    refine ⟨(shortest (codeOf value)).write.toList, (shortest (codeOf value)).number, ?_,
      Decimal.plainNotation_write _, Decimal.denotesDecimal_write _, ?_, ?_⟩
    · rw [String.toList_append, hsign]
      simp only [decide_eq_true_eq, apply_ite String.toList]
      rfl
    · rw [← hsign]
      apply roundsWithin_shortest h
    · intro n y hy hn
      obtain ⟨hnearest, hy'⟩ := hy.isNearest hne
      have hn' : HasDigits n |y| := by rwa [HasDigits, abs_abs]
      constructor
      · apply hchosen.hasDigits hcode hnearest hn'
      · intro hleast
        have hle := hchosen.le_of_hasDigits hcode hnearest hn' hleast
        rw [← abs_signed_sub_signed (signBit value), ← @abs_signed_sub_signed |y| (signBit value),
          hy', ← exactValue_eq h, hsign] at hle
        apply hle

/-- The negative zero, and the second number below it. -/
theorem resultText_shortest_negative :
  resultText (Float.ofBits 0x8000000000000000) = "-0"
    ∧ exactValue (Float.ofBits 0x8000000000000002) ≠ 0
    ∧ ∃ chars x, (resultText (Float.ofBits 0x8000000000000002)).toList = '-' :: chars
      ∧ PlainNotation chars ∧ RoundsWithin (-x) (Float.ofBits 0x8000000000000002)
  := by
  have hzero : (Float.ofBits 0x8000000000000000).isFinite := by decide
  have hsecond : (Float.ofBits 0x8000000000000002).isFinite := by decide
  have hne : exactValue (Float.ofBits 0x8000000000000002) ≠ 0 :=
    (exactValue_eq_zero_iff hsecond).not.mpr (by decide)
  have hneg : exactValue (Float.ofBits 0x8000000000000002) < 0 := by
    have hbit : signBit (Float.ofBits 0x8000000000000002) = true := by decide
    rwa [signBit_eq hsecond hne, decide_eq_true_eq] at hbit
  obtain ⟨chars, x, htext, hplain, -, hrounds, -⟩ := (resultText_shortest hsecond).2 hne
  rw [if_pos hneg] at htext
  rw [signed, if_pos (decide_eq_true hneg)] at hrounds
  refine ⟨?_, hne, chars, x, htext, hplain, hrounds⟩
  rw [(resultText_shortest hzero).1 ((exactValue_eq_zero_iff hzero).mpr (by decide)), if_pos]
  decide

end Abacus
