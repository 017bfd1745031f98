import Mathlib
import Abacus.Calculation
import Abacus.Proofs.Binary64.Shortest
import Abacus.Proofs.Expr.Evaluation
import Abacus.Proofs.Expr.Rendering
import Abacus.Proofs.Numeral

/-!
# The text of a result

The text of a finite value is a numeral that is rounded to the value, `denotesNumeral_resultText`,
and the text of an infinity is a constant behind a sign. Both are read as a literal with all of the
text, so a calculation gives back the value whose text it reads, `Calculation.value_resultText`.
-/

namespace Abacus

open Binary64

/-! ### Writing values -/

section

variable (style : ValueStyle) {value : Float}

theorem ValueStyle.write_of_isFinite (h : value.isFinite) :
  style.write value = (if signBit value then "-" else "") ++ (shortest (codeOf value)).write
  := by
  have hlt := (isFinite_iff value).mp h
  simp only [signBit_iff]
  dsimp only [write]
  rw [← codeOf, if_neg (Nat.not_lt_of_gt hlt), if_neg (Nat.ne_of_lt hlt)]

theorem ValueStyle.write_of_isInf (h : value.isInf) :
  style.write value = if signBit value then style.negativeInfinity else style.positiveInfinity
  := by
  have heq := (isInf_iff value).mp h
  simp only [signBit_iff]
  dsimp only [write]
  rw [← codeOf, heq, if_neg (Nat.lt_irrefl _), if_pos rfl]

theorem ValueStyle.write_of_lt_codeOf (h : infinityCode < codeOf value) :
  style.write value = style.notANumber
  := by
  dsimp only [write]
  rw [← codeOf, if_pos h]

end

/-- A value is finite or infinite, or it is no number. -/
theorem isFinite_or_isInf_or_resultText_eq (value : Float) :
  value.isFinite ∨ value.isInf ∨ resultText value = "NaN"
  := by
  rw [isFinite_iff, isInf_iff]
  rcases Nat.lt_trichotomy (codeOf value) infinityCode with hlt | heq | hlt
  · exact .inl hlt
  · exact .inr (.inl heq)
  · right
    right
    apply ValueStyle.write_of_lt_codeOf _ hlt

/-- The text of a finite value is a numeral that is rounded to it. -/
theorem denotesNumeral_resultText {value : Float} (h : value.isFinite) :
  DenotesNumeral (resultText value) (signBit value) (shortest (codeOf value)).number
  := by
  have hdenotes := (shortest (codeOf value)).denotesDecimal_write
  rw [resultText, resultStyle.write_of_isFinite h]
  cases signBit value with
  | false =>
    rw [if_neg Bool.false_ne_true, String.empty_append]
    apply DenotesNumeral.unsigned hdenotes
  | true =>
    rw [if_pos rfl]
    apply DenotesNumeral.negative (String.toList_append) hdenotes

theorem numeral?_resultText {value : Float} (h : value.isFinite) :
  numeral? (resultText value) = some value
  := by
  have hlt := (isFinite_iff value).mp h
  rw [numeral?_eq_some_iff]
  exact ⟨_, _, _, denotesNumeral_resultText h, isNearest_shortest _, hlt, valueOfCode_codeOf hlt.le⟩

/-! ### Infinities -/

/-- Positive infinity. -/
def infinity : Float :=
  Float.ofBits 0x7FF0000000000000

theorem infinity_eq :
  infinity = valueOfCode false infinityCode
  := by
  apply congrArg Float.ofBits
  decide

theorem neg_infinity_eq :
  -infinity = valueOfCode true infinityCode
  := by
  apply eq_of_toNat_toBits_eq
  decide

theorem eq_infinity_of_isInf {value : Float} (h : value.isInf) :
  value = if signBit value then -infinity else infinity
  := by
  have hcode := (isInf_iff value).mp h
  rw [neg_infinity_eq, infinity_eq]
  conv_lhs => rw [← valueOfCode_codeOf hcode.le, hcode]
  cases signBit value <;> rfl

/-- The text of an infinity is its name behind its sign. -/
theorem resultText_of_isInf {value : Float} (h : value.isInf) :
  resultText value = signedText (signBit value) "Inf"
  := by
  rw [resultText, resultStyle.write_of_isInf h]
  cases signBit value <;> rfl

/-! ### Reading values -/

theorem isReadableLiteral_of_denotesNumeral {text : String} {negative : Bool} {x : ℚ}
    (h : DenotesNumeral text negative x) :
  isReadableLiteral .number text
  := by
  rw [isReadableLiteral_eq]
  apply isLiteralText_of_denotesDecimal (denotesNumeral_iff.mp h).2

/-- A readable literal is read with all of its text. -/
theorem parseText_of_isReadableLiteral {kind : Token.Kind} {text : String}
    (h : isReadableLiteral kind text) :
  parseText text = .ok (.literal kind text)
  := @parseText_of_isReadable (.literal kind text) h

/-- A name behind a sign has the value of the name, or the opposite one. -/
theorem Expr.value_constant_signedText (constants : Constants) (negative : Bool) (name : String) :
  (literal .constant (signedText negative name)).value constants =
    match constants name with
    | some value => .ok (if negative then -value else value)
    | none => .error (.unknownConstant name)
  := by
  rw [value_constant_eq, splitSign_signedText]
  cases hname : constants name <;> simp [hname]

/-- The text of a value other than no number is a literal with that value. -/
theorem exists_literal_of_resultText {constants : Constants}
    (hinfinity : constants "Inf" = some infinity) {value : Float} (h : resultText value ≠ "NaN") :
  ∃ kind, isReadableLiteral kind (resultText value)
    ∧ (Expr.literal kind (resultText value)).value constants = .ok value
  := by
  rcases isFinite_or_isInf_or_resultText_eq value with hfinite | hinf | hnan
  · use .number, isReadableLiteral_of_denotesNumeral (denotesNumeral_resultText hfinite)
    rw [Expr.value_number_eq, numeral?_resultText hfinite]
  · have hname : isLiteralText .constant "Inf".toList := by decide +kernel
    use .constant
    rw [resultText_of_isInf hinf]
    use isReadableLiteral_signedText hname _
    rw [Expr.value_constant_signedText, hinfinity]
    conv_rhs => rw [eq_infinity_of_isInf hinf]
  · apply absurd hnan h

namespace Calculation

variable (constants : Constants)

theorem value_of_isReadableLiteral {kind : Token.Kind} {text : String}
    (h : isReadableLiteral kind text) :
  value constants text = ofEval ((Expr.literal kind text).value constants)
  := by
  rw [value, parseText_of_isReadableLiteral h]

/-- A calculation gives back a value from its text. For the infinities, positive infinity has to be
the value of its name. -/
theorem value_resultText :
  (∀ v : Float, v.isFinite → value constants (resultText v) = .ok v)
    ∧ (constants "Inf" = some infinity →
        ∀ v : Float, v.isInf → value constants (resultText v) = .ok v)
  := by
  constructor
  · intro v hv
    rw [value_of_isReadableLiteral constants
      (isReadableLiteral_of_denotesNumeral (denotesNumeral_resultText hv)), Expr.value_number_eq,
      numeral?_resultText hv]
    rfl
  · intro hinfinity v hv
    have hname : isLiteralText .constant "Inf".toList := by decide +kernel
    rw [resultText_of_isInf hv, value_of_isReadableLiteral constants
      (isReadableLiteral_signedText hname _), Expr.value_constant_signedText, hinfinity]
    conv_rhs => rw [eq_infinity_of_isInf hv]
    rfl

/-- The number next to zero behind a minus sign, and negative infinity. -/
theorem value_resultText_negative_extremes :
  value (fun _ => none) (resultText (Float.ofBits 0x8000000000000001))
      = .ok (Float.ofBits 0x8000000000000001)
    ∧ value (fun _ => some infinity) (resultText (-infinity)) = .ok (-infinity)
  := by
  constructor
  · apply (value_resultText _).1
    decide
  · apply (value_resultText _).2 rfl
    decide

end Calculation

end Abacus
