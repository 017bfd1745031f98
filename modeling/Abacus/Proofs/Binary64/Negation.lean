import Abacus.Proofs.Binary64.Bits

/-!
# Opposite values

The opposite of a value that is a number has the other sign bit and the same code, `neg_eq`, and so in
particular the opposite of a zero or of an infinity. What is no number has no number as its opposite,
`isNaN_neg`. `IsSigned` says of a value that it is another one behind a sign.
-/

namespace Abacus

open Float.Model (Format UnpackedFloat)
open Float.Model.UnpackedFloat
open Binary64

namespace Binary64

theorem neg_signOf (negative : Bool) :
  -signOf negative = signOf (!negative)
  := by
  cases negative <;> rfl

/-- The opposite of what is unpacked from bits is unpacked from those with the other sign bit. -/
theorem neg_unpack {b b' : BitVec Format.binary64.numBits} {negative : Bool} {code : Nat}
    (hb : b.toNat = code + signWeight negative) (hb' : b'.toNat = code + signWeight !negative)
    (h : code ≤ infinityCode) :
  (unpack Format.binary64 b).neg = unpack Format.binary64 b'
  := by
  rcases Nat.lt_or_eq_of_le h with hlt | rfl
  · rw [unpack_of_lt hb hlt, unpack_of_lt hb' hlt, ← neg_signOf]
    split <;> rfl
  · rw [unpack_infinityCode hb, unpack_infinityCode hb', ← neg_signOf]
    rfl

end Binary64

variable {value : Float}

/-- The opposite of a number has the other sign bit and the same code. -/
theorem neg_eq (h : codeOf value ≤ infinityCode) :
  -value = valueOfCode (!signBit value) (codeOf value)
  := by
  have hother : (valueOfCode (!signBit value) (codeOf value)).toModel.toBits.toBitVec.toNat
      = codeOf value + signWeight !signBit value :=
    toNat_toBits_valueOfCode _ h
  apply eq_of_toNat_toBits_eq
  calc (-value).toBits.toNat
    _ = (pack Format.binary64 (unpack Format.binary64 value.toModel.toBits.toBitVec).neg).toNat := rfl
    _ = (pack Format.binary64 (unpack Format.binary64
          (valueOfCode (!signBit value) (codeOf value)).toModel.toBits.toBitVec)).toNat := by
      rw [neg_unpack (toNat_toBitVec_toModel value) hother h]
    _ = (valueOfCode (!signBit value) (codeOf value)).toBits.toNat := toNat_pack_unpack hother h

/-- What is no number has no number as its opposite. -/
theorem isNaN_neg (h : value.isNaN) :
  (-value).isNaN
  := by
  have hunpack : value.toModel.unpack = .notANumber := by
    apply unpack_of_gt (toNat_toBitVec_toModel value) (codeOf_lt value)
    apply (isNaN_iff value).mp h
  have hneg : -value = ⟨Float.Model.pack value.toModel.unpack.neg⟩ := rfl
  rw [hneg, hunpack]
  decide

/-- A value behind a sign: the positive sign leaves it, and the negative one gives it the other sign bit,
unless it is no number and stays so. -/
structure IsSigned (negative : Bool) (value signed : Float) : Prop where
  eq_of_positive : negative = false → signed = value
  isNaN : value.isNaN → signed.isNaN
  signBit_eq : ¬ value.isNaN → signBit signed = (signBit value ^^ negative)
  codeOf_eq : ¬ value.isNaN → codeOf signed = codeOf value

theorem isSigned_valueOfCode (negative : Bool) {code : Nat} (h : code < infinityCode) :
  IsSigned negative (valueOfCode false code) (valueOfCode negative code)
  where
  eq_of_positive hpositive := by
    rw [hpositive]
  isNaN hnan := by
    rw [isNaN_iff, codeOf_valueOfCode _ (Nat.le_of_lt h)] at hnan
    apply absurd hnan (Nat.not_lt.mpr (Nat.le_of_lt h))
  signBit_eq _ := by
    rw [signBit_valueOfCode _ (Nat.le_of_lt h), signBit_valueOfCode _ (Nat.le_of_lt h),
      Bool.false_xor]
  codeOf_eq _ := by
    rw [codeOf_valueOfCode _ (Nat.le_of_lt h), codeOf_valueOfCode _ (Nat.le_of_lt h)]

theorem isSigned_refl (value : Float) :
  IsSigned false value value
  where
  eq_of_positive _ := rfl
  isNaN hnan := hnan
  signBit_eq _ := by
    rw [Bool.xor_false]
  codeOf_eq _ := rfl

theorem isSigned_neg (value : Float) :
  IsSigned true value (-value)
  where
  eq_of_positive := nofun
  isNaN := isNaN_neg
  signBit_eq hnan := by
    rw [isNaN_iff, Nat.not_lt] at hnan
    rw [neg_eq hnan, signBit_valueOfCode _ hnan, Bool.xor_true]
  codeOf_eq hnan := by
    rw [isNaN_iff, Nat.not_lt] at hnan
    rw [neg_eq hnan, codeOf_valueOfCode _ hnan]

end Abacus
