import Mathlib
import Abacus.Proofs.Binary64.Nearest
import Abacus.Value

/-!
# The bits of a value

The bits of a value are a sign bit above the code of its magnitude, `signBit` and `codeOf`. The
finite values are those with a code below `Binary64.infinityCode`, and the code is that of a
significand and of a power of two by which it is multiplied, `Binary64.unpack_of_lt`. A value that
is a number is that of its sign bit and its code, `valueOfCode_codeOf`.
-/

namespace Abacus

open Float.Model (Format UnpackedFloat)
open Float.Model.UnpackedFloat

theorem signUnit_eq :
  signUnit = 0x8000000000000000
  := by
  decide

namespace Binary64

/-! ### Fields of bits -/

section

variable (b : BitVec Format.binary64.numBits)

theorem toNat_unpackMantissa :
  (unpackMantissa b).toNat = b.toNat % 2 ^ 52
  := by
  simp [unpackMantissa]

theorem toNat_unpackExponent :
  (unpackExponent b).toNat = b.toNat / 2 ^ 52 % 2 ^ 11
  := by
  simp [unpackExponent, Nat.shiftRight_eq_div_pow]

theorem toNat_unpackSign :
  (unpackSign b).toNat = b.toNat / 2 ^ 63 % 2
  := by
  simp [unpackSign, Nat.shiftRight_eq_div_pow]

end

theorem toNat_packComponents (sign : Sign) (exponent : BitVec 11) (mantissa : BitVec 52) :
  (packComponents Format.binary64 sign exponent mantissa).toNat
    = (sign.toBitVec.toNat * 2 ^ 11 + exponent.toNat) * 2 ^ 52 + mantissa.toNat
  := by
  rw [packComponents, BitVec.toNat_append, BitVec.toNat_append,
    ← Nat.shiftLeft_add_eq_or_of_lt mantissa.isLt, ← Nat.shiftLeft_add_eq_or_of_lt exponent.isLt,
    Nat.shiftLeft_eq, Nat.shiftLeft_eq]

theorem toNat_implicit_append (mantissa : BitVec 52) :
  (1#1 ++ mantissa).toNat = exponentUnit + mantissa.toNat
  := by
  rw [BitVec.toNat_append, ← Nat.shiftLeft_add_eq_or_of_lt mantissa.isLt, Nat.shiftLeft_eq]
  rfl

/-- The sign of a sign bit. -/
def signOf (negative : Bool) : Sign :=
  if negative then .negative else .positive

/-- The weight of a sign bit. -/
def signWeight (negative : Bool) : Nat :=
  if negative then signUnit else 0

section

variable {b : BitVec Format.binary64.numBits} {negative : Bool} {code : Nat}

theorem ofBitVec_unpackSign (hb : b.toNat = code + signWeight negative) (h : code < signUnit) :
  Sign.ofBitVec (unpackSign b) = signOf negative
  := by
  rw [signUnit_eq] at h
  have hsign : (unpackSign b).toNat = negative.toNat := by
    rw [toNat_unpackSign, hb]
    cases negative with
    | false =>
      rw [signWeight, if_neg Bool.false_ne_true, Bool.toNat_false]
      omega
    | true =>
      rw [signWeight, if_pos rfl, signUnit_eq, Bool.toNat_true]
      omega
  have heq : unpackSign b = BitVec.ofBool negative := by
    apply BitVec.eq_of_toNat_eq
    rw [hsign, BitVec.toNat_ofBool]
  rw [heq]
  cases negative <;> rfl

theorem toNat_unpackExponent_of_lt (hb : b.toNat = code + signWeight negative)
    (h : code < signUnit) :
  (unpackExponent b).toNat = code / exponentUnit
  := by
  have hweight : signWeight negative % 2 ^ 63 = 0 := by
    cases negative <;> decide
  rw [signUnit_eq] at h
  rw [toNat_unpackExponent, hb, exponentUnit_eq]
  omega

theorem toNat_unpackMantissa_of_lt (hb : b.toNat = code + signWeight negative) :
  (unpackMantissa b).toNat = code % exponentUnit
  := by
  have hweight : signWeight negative % 2 ^ 63 = 0 := by
    cases negative <;> decide
  rw [toNat_unpackMantissa, hb, exponentUnit_eq]
  omega

theorem unpackExponent_ne_neg_one (hb : b.toNat = code + signWeight negative)
    (h : code < infinityCode) :
  unpackExponent b ≠ -1#_
  := by
  intro heq
  have hones := congrArg BitVec.toNat heq
  rw [toNat_unpackExponent_of_lt hb (Nat.lt_trans h (by decide)), exponentUnit_eq] at hones
  rw [infinityCode_eq] at h
  simp at hones
  omega

/-- Bits with the least exponent are those of a zero or of the code as the significand. -/
theorem unpack_of_least (hb : b.toNat = code + signWeight negative)
    (hleast : code / exponentUnit = 0) :
  unpack Format.binary64 b =
    if hzero : code % exponentUnit = 0 then .zero (signOf negative)
    else .finite (signOf negative) (code % exponentUnit) (-1074) (Nat.pos_of_ne_zero hzero)
  := by
  have hlt : code < infinityCode := by
    rw [exponentUnit_eq] at hleast
    rw [infinityCode_eq]
    omega
  have hfinite := unpackExponent_ne_neg_one hb hlt
  have hsign := ofBitVec_unpackSign hb (Nat.lt_trans hlt (by decide))
  have hmantissa := toNat_unpackMantissa_of_lt hb
  have hexponent : unpackExponent b = 0#_ := by
    apply BitVec.eq_of_toNat_eq
    rw [toNat_unpackExponent_of_lt hb (Nat.lt_trans hlt (by decide)), hleast]
    rfl
  have hzero : unpackMantissa b = 0#_ ↔ code % exponentUnit = 0 := by
    rw [← hmantissa]
    constructor
    · intro h
      rw [h]
      rfl
    · intro h
      apply BitVec.eq_of_toNat_eq h
  rw [unpack]
  rw [if_neg hfinite, if_pos hexponent]
  simp only [hsign, hexponent, hzero, hmantissa]
  rfl

/-- Bits with a greater exponent are those of a significand with a leading bit. -/
theorem unpack_of_greater (hb : b.toNat = code + signWeight negative) (h : code < infinityCode)
    (hgreater : code / exponentUnit ≠ 0) :
  unpack Format.binary64 b = .finite (signOf negative) (exponentUnit + code % exponentUnit)
    (scale code - 1074) (Nat.add_pos_left (by decide) _)
  := by
  have hfinite := unpackExponent_ne_neg_one hb h
  have hsign := ofBitVec_unpackSign hb (Nat.lt_trans h (by decide))
  have hexponent := toNat_unpackExponent_of_lt hb (Nat.lt_trans h (by decide))
  have hnonzero : unpackExponent b ≠ 0#_ := by
    intro heq
    apply hgreater
    rw [← hexponent, heq]
    rfl
  rw [unpack]
  simp only [hfinite, if_false, hsign, hnonzero, toNat_implicit_append,
    toNat_unpackMantissa_of_lt hb, hexponent]
  congr 1
  rw [scale]
  simp only [Format.exponentBias]
  omega

/-- The bits of a finite code are those of its significand and scale. -/
theorem unpack_of_lt (hb : b.toNat = code + signWeight negative) (h : code < infinityCode) :
  unpack Format.binary64 b =
    if hzero : significand code = 0 then .zero (signOf negative)
    else .finite (signOf negative) (significand code) (scale code - 1074)
      (Nat.pos_of_ne_zero hzero)
  := by
  by_cases hleast : code / exponentUnit = 0
  · rw [unpack_of_least hb hleast]
    simp [significand, scale, hleast]
  · have hsignificand : significand code = exponentUnit + code % exponentUnit := by
      rw [significand, if_neg hleast]
    have hpos : significand code ≠ 0 := by
      rw [hsignificand, exponentUnit_eq]
      omega
    rw [unpack_of_greater hb h hleast, dif_neg hpos]
    simp only [hsignificand]

/-- Bits with the code of infinity. -/
theorem unpack_infinityCode (hb : b.toNat = infinityCode + signWeight negative) :
  unpack Format.binary64 b = .infinity (signOf negative)
  := by
  have hsign := ofBitVec_unpackSign hb (by decide)
  have hexponent : unpackExponent b = -1#_ := by
    apply BitVec.eq_of_toNat_eq
    rw [toNat_unpackExponent_of_lt hb (by decide)]
    decide
  have hmantissa : unpackMantissa b = 0#_ := by
    apply BitVec.eq_of_toNat_eq
    rw [toNat_unpackMantissa_of_lt hb]
    decide
  rw [unpack]
  simp only [hexponent, hmantissa, if_true, hsign]

/-- Bits with a code above that of infinity. -/
theorem unpack_of_gt (hb : b.toNat = code + signWeight negative) (hlt : code < signUnit)
    (h : infinityCode < code) :
  unpack Format.binary64 b = .notANumber
  := by
  rw [infinityCode_eq] at h
  rw [signUnit_eq] at hlt
  have hexponent : unpackExponent b = -1#_ := by
    apply BitVec.eq_of_toNat_eq
    rw [toNat_unpackExponent_of_lt hb hlt, exponentUnit_eq]
    simp
    omega
  have hmantissa : unpackMantissa b ≠ 0#_ := by
    intro heq
    have hzero := congrArg BitVec.toNat heq
    rw [toNat_unpackMantissa_of_lt hb, exponentUnit_eq] at hzero
    simp at hzero
    omega
  rw [unpack]
  simp only [hexponent, hmantissa, if_true, if_false]

end

/-! ### Packing -/

theorem toNat_toBitVec_signOf (negative : Bool) :
  (signOf negative).toBitVec.toNat * 2 ^ 63 = signWeight negative
  := by
  cases negative <;> decide

theorem log2_significand_lt {code : Nat} (hpos : 0 < significand code)
    (hleast : code / exponentUnit = 0) :
  (significand code).log2 < 52
  := by
  rw [Nat.log2_lt (Nat.ne_of_gt hpos), significand, if_pos hleast]
  apply Nat.mod_lt _ (by decide)

theorem log2_significand_eq {code : Nat} (hgreater : code / exponentUnit ≠ 0) :
  (significand code).log2 = 52
  := by
  rw [significand, if_neg hgreater, exponentUnit_eq, Nat.log2_eq_iff (by omega)]
  omega

/-- The significand and scale of a finite code are packed into the code. -/
theorem toNat_pack_finite {negative : Bool} {code : Nat} (hpos : 0 < significand code)
    (h : code < infinityCode) :
  (pack Format.binary64 (.finite (signOf negative) (significand code) (scale code - 1074)
    hpos)).toNat = code + signWeight negative
  := by
  have hbiased : ((scale code : Int) - 1074 + Format.binary64.exponentBias
      + Format.binary64.mantissaBitsWithoutImplicit).toNat = scale code + 1 := by
    simp only [Format.exponentBias]
    omega
  have hscale : ¬ 2048 ≤ scale code + 1 + 1 := by
    rw [infinityCode_eq] at h
    rw [scale, exponentUnit_eq]
    omega
  have hbits : Format.binary64.mantissaBits = 53 := rfl
  rw [pack]
  dsimp only
  rw [hbiased, if_neg hscale, hbits, ← toNat_toBitVec_signOf]
  by_cases hleast : code / exponentUnit = 0
  · have hlog := log2_significand_lt hpos hleast
    rw [if_neg (by omega), toNat_packComponents, BitVec.toNat_ofNat, BitVec.toNat_ofNat,
      significand, if_pos hleast]
    rw [exponentUnit_eq] at hleast ⊢
    omega
  · have hlog := log2_significand_eq hleast
    rw [if_pos (by omega), toNat_packComponents, BitVec.toNat_ofNat, BitVec.toNat_ofNat,
      significand, if_neg hleast, scale]
    rw [infinityCode_eq] at h
    rw [exponentUnit_eq] at hleast ⊢
    omega

/-- Unpacking and packing gives back the bits, but for codes of no number. -/
theorem toNat_pack_unpack {b : BitVec Format.binary64.numBits} {negative : Bool} {code : Nat}
    (hb : b.toNat = code + signWeight negative) (h : code ≤ infinityCode) :
  (pack Format.binary64 (unpack Format.binary64 b)).toNat = b.toNat
  := by
  rcases Nat.lt_or_eq_of_le h with hlt | rfl
  · rw [unpack_of_lt hb hlt]
    split
    · next hzero =>
      have hcode : code = 0 := by
        rw [significand, exponentUnit_eq] at hzero
        split at hzero <;> omega
      rw [hb, hcode]
      cases negative <;> decide
    · rw [toNat_pack_finite _ hlt, hb]
  · rw [unpack_infinityCode hb, hb]
    cases negative <;> decide

end Binary64

/-! ### The sign bit and the code of a value -/

open Binary64

/-- The sign bit of a value. -/
def signBit (value : Float) : Bool :=
  signUnit ≤ value.toBits.toNat

theorem signBit_iff (value : Float) :
  signBit value ↔ signUnit ≤ value.toBits.toNat
  := decide_eq_true_iff

/-- The code of the magnitude of a value. -/
def codeOf (value : Float) : Nat :=
  value.toBits.toNat % signUnit

theorem codeOf_lt (value : Float) :
  codeOf value < signUnit
  := Nat.mod_lt _ (by decide)

theorem toNat_toBits (value : Float) :
  value.toBits.toNat = codeOf value + signWeight (signBit value)
  := by
  have hlt := value.toBits.toNat_lt
  rw [codeOf, signWeight]
  split
  · next h =>
    rw [signBit_iff, signUnit_eq] at h
    rw [signUnit_eq]
    omega
  · next h =>
    rw [signBit_iff, signUnit_eq] at h
    rw [signUnit_eq]
    omega

theorem toNat_toBitVec_toModel (value : Float) :
  value.toModel.toBits.toBitVec.toNat = codeOf value + signWeight (signBit value)
  := toNat_toBits value

theorem isFinite_iff (value : Float) :
  value.isFinite ↔ codeOf value < infinityCode
  := by
  have hb := toNat_toBitVec_toModel value
  rw [Float.isFinite, Float.Model.isFinite, Float.Model.unpack]
  rcases Nat.lt_trichotomy (codeOf value) infinityCode with hlt | heq | hgt
  · rw [unpack_of_lt hb hlt]
    split <;> simp [UnpackedFloat.isFinite, hlt]
  · rw [heq] at hb
    rw [unpack_infinityCode hb, heq]
    simp [UnpackedFloat.isFinite]
  · rw [unpack_of_gt hb (codeOf_lt value) hgt]
    simp [UnpackedFloat.isFinite, Nat.not_lt_of_gt hgt]

theorem isInf_iff (value : Float) :
  value.isInf ↔ codeOf value = infinityCode
  := by
  have hb := toNat_toBitVec_toModel value
  rw [Float.isInf, Float.Model.isInf, Float.Model.unpack]
  rcases Nat.lt_trichotomy (codeOf value) infinityCode with hlt | heq | hgt
  · rw [unpack_of_lt hb hlt]
    split <;> simp [UnpackedFloat.isInf, Nat.ne_of_lt hlt]
  · rw [heq] at hb
    rw [unpack_infinityCode hb, heq]
    simp [UnpackedFloat.isInf]
  · rw [unpack_of_gt hb (codeOf_lt value) hgt]
    simp [UnpackedFloat.isInf, Nat.ne_of_gt hgt]

theorem isNaN_iff (value : Float) :
  value.isNaN ↔ infinityCode < codeOf value
  := by
  have hb := toNat_toBitVec_toModel value
  rw [Float.isNaN, Float.Model.isNaN, Float.Model.unpack]
  rcases Nat.lt_trichotomy (codeOf value) infinityCode with hlt | heq | hgt
  · rw [unpack_of_lt hb hlt]
    split <;> simp [UnpackedFloat.isNaN, Nat.le_of_lt hlt]
  · rw [heq] at hb
    rw [unpack_infinityCode hb, heq]
    simp [UnpackedFloat.isNaN]
  · rw [unpack_of_gt hb (codeOf_lt value) hgt]
    simp [UnpackedFloat.isNaN, hgt]

section

variable {code : Nat} (negative : Bool)

theorem toNat_toBits_valueOfCode (h : code ≤ infinityCode) :
  (valueOfCode negative code).toBits.toNat = code + signWeight negative
  := by
  have hlt : code + signWeight negative < 2 ^ 64 := by
    rw [infinityCode_eq] at h
    rw [signWeight, signUnit_eq]
    split <;> omega
  have hb : (UInt64.ofNat (code + signWeight negative)).toBitVec.toNat
      = code + signWeight negative := by
    apply UInt64.toNat_ofNat_of_lt' hlt
  apply (toNat_pack_unpack hb h).trans hb

theorem codeOf_valueOfCode (h : code ≤ infinityCode) :
  codeOf (valueOfCode negative code) = code
  := by
  rw [codeOf, toNat_toBits_valueOfCode negative h]
  rw [infinityCode_eq] at h
  rw [signWeight, signUnit_eq]
  split <;> omega

theorem signBit_valueOfCode (h : code ≤ infinityCode) :
  signBit (valueOfCode negative code) = negative
  := by
  rw [signBit, toNat_toBits_valueOfCode negative h]
  rw [infinityCode_eq] at h
  rw [signWeight, signUnit_eq]
  cases negative <;> simp
  omega

end

/-- A value is determined by its bits. -/
theorem eq_of_toNat_toBits_eq {value value' : Float}
    (h : value.toBits.toNat = value'.toBits.toNat) :
  value = value'
  := by
  rcases value with ⟨⟨bits, hvalid⟩⟩
  rcases value' with ⟨⟨bits', hvalid'⟩⟩
  obtain rfl : bits = bits' := UInt64.toNat_inj.mp h
  rfl

/-- A value is that of its sign bit and its code, unless it is no number. -/
theorem valueOfCode_codeOf {value : Float} (h : codeOf value ≤ infinityCode) :
  valueOfCode (signBit value) (codeOf value) = value
  := by
  apply eq_of_toNat_toBits_eq
  rw [toNat_toBits_valueOfCode _ h, ← toNat_toBits]

end Abacus
