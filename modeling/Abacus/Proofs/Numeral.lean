import Mathlib
import Abacus.Expr.Evaluation
import Abacus.Proofs.Binary64.Rounding
import Abacus.Proofs.Token.Lexical

/-!
# The values of numerals

A numeral is a decimal number behind at most one sign, `DenotesNumeral`. It has a value if it is
less than `2 ^ 1024 - 2 ^ 970`, `numeral?_eq_some_iff`, and the value is then the one that the
number is rounded to, with the sign that is written, `Expr.value_number_rounds`.
-/

namespace Abacus

open Binary64

/-- The text is a decimal number behind at most one sign. -/
inductive DenotesNumeral (text : String) : Bool → ℚ → Prop where
  | unsigned {x : ℚ} (h : DenotesDecimal text.toList x) : DenotesNumeral text false x
  | positive {chars : List Char} {x : ℚ} (hsign : text.toList = '+' :: chars)
      (h : DenotesDecimal chars x) : DenotesNumeral text false x
  | negative {chars : List Char} {x : ℚ} (hsign : text.toList = '-' :: chars)
      (h : DenotesDecimal chars x) : DenotesNumeral text true x

/-! ### Reading -/

/-- The characters of a decimal number make up a number token. -/
theorem isLiteralText_of_denotesDecimal {chars : List Char} {x : ℚ} (h : DenotesDecimal chars x) :
  isLiteralText .number chars
  := by
  have hdigit : ∀ c : Char, c.isDigit → isNumberChar c := by
    intro c hc
    rw [isNumberChar, hc, Bool.true_or]
  rw [isLiteralText, isNumberText, Bool.and_eq_true, decide_eq_true_iff, List.all_eq_true]
  rcases h with ⟨hne, hdigits⟩ | ⟨-, hdigits⟩
  · use hne
    intro c hc
    apply hdigit c (hdigits c hc)
  · use List.append_ne_nil_of_right_ne_nil _ (List.cons_ne_nil _ _)
    intro c hc
    rw [List.mem_append, List.mem_cons] at hc
    rcases hc with hwhole | rfl | hfraction
    · apply hdigit c (hdigits c (List.mem_append_left _ hwhole))
    · decide
    · apply hdigit c (hdigits c (List.mem_append_right _ hfraction))

theorem splitSign_cases (chars : List Char) :
  (∃ rest, chars = '-' :: rest ∧ splitSign chars = (true, rest))
    ∨ (∃ rest, chars = '+' :: rest ∧ splitSign chars = (false, rest))
    ∨ splitSign chars = (false, chars)
  := by
  rw [splitSign.eq_def]
  split
  · next rest => exact .inl ⟨rest, rfl, rfl⟩
  · next rest => exact .inr (.inl ⟨rest, rfl, rfl⟩)
  · exact .inr (.inr rfl)

/-- A numeral is read by splitting off its sign. -/
theorem denotesNumeral_iff {text : String} {negative : Bool} {x : ℚ} :
  DenotesNumeral text negative x
    ↔ (splitSign text.toList).1 = negative ∧ DenotesDecimal (splitSign text.toList).2 x
  := by
  constructor
  · rintro (h | ⟨hsign, h⟩ | ⟨hsign, h⟩)
    · rw [splitSign_of_isLiteralText (isLiteralText_of_denotesDecimal h)]
      exact ⟨rfl, h⟩
    · rw [hsign]
      exact ⟨rfl, h⟩
    · rw [hsign]
      exact ⟨rfl, h⟩
  · rintro ⟨rfl, h⟩
    obtain ⟨rest, hchars, hsplit⟩ | ⟨rest, hchars, hsplit⟩ | hsplit := splitSign_cases text.toList
    · rw [hsplit] at h ⊢
      apply DenotesNumeral.negative hchars h
    · rw [hsplit] at h ⊢
      apply DenotesNumeral.positive hchars h
    · rw [hsplit] at h ⊢
      apply DenotesNumeral.unsigned h

/-- A text is a numeral in one way only. -/
theorem DenotesNumeral.unique {text : String} {negative negative' : Bool} {x x' : ℚ}
    (h : DenotesNumeral text negative x) (h' : DenotesNumeral text negative' x') :
  negative = negative' ∧ x = x'
  := by
  obtain ⟨rfl, hx⟩ := denotesNumeral_iff.mp h
  obtain ⟨rfl, hx'⟩ := denotesNumeral_iff.mp h'
  obtain ⟨d, hd, rfl⟩ := denotesDecimal_iff.mp hx
  obtain ⟨d', hd', rfl⟩ := denotesDecimal_iff.mp hx'
  rw [hd] at hd'
  cases hd'
  exact ⟨rfl, rfl⟩

theorem DenotesNumeral.nonneg {text : String} {negative : Bool} {x : ℚ}
    (h : DenotesNumeral text negative x) :
  0 ≤ x
  := by
  obtain ⟨-, hx⟩ := denotesNumeral_iff.mp h
  obtain ⟨d, -, rfl⟩ := denotesDecimal_iff.mp hx
  apply d.number_nonneg

/-! ### The value -/

/-- A text has a value if it is a numeral and the nearest code is that of a finite number, and then
the value of that code behind the sign. -/
theorem numeral?_eq_some_iff {text : String} {value : Float} :
  numeral? text = some value ↔ ∃ negative x code, DenotesNumeral text negative x
    ∧ IsNearest x code ∧ code < infinityCode ∧ valueOfCode negative code = value
  := by
  simp only [numeral?, Option.map_eq_some_iff, Option.bind_eq_some_iff]
  constructor
  · rintro ⟨code, ⟨d, hd, hcode⟩, rfl⟩
    obtain ⟨hnearest, hlt⟩ := ofDecimal?_eq_some_iff.mp hcode
    use (splitSign text.toList).1, d.number, code
    exact ⟨denotesNumeral_iff.mpr ⟨rfl, denotesDecimal_iff.mpr ⟨d, hd, rfl⟩⟩, hnearest, hlt, rfl⟩
  · rintro ⟨negative, x, code, h, hnearest, hlt, rfl⟩
    obtain ⟨rfl, hx⟩ := denotesNumeral_iff.mp h
    obtain ⟨d, hd, rfl⟩ := denotesDecimal_iff.mp hx
    exact ⟨code, ⟨d, hd, ofDecimal?_eq_some_iff.mpr ⟨hnearest, hlt⟩⟩, rfl⟩

theorem DenotesNumeral.exists_isNearest {text : String} {negative : Bool} {x : ℚ}
    (h : DenotesNumeral text negative x) :
  ∃ code, IsNearest x code
  := by
  obtain ⟨-, hx⟩ := denotesNumeral_iff.mp h
  obtain ⟨d, -, rfl⟩ := denotesDecimal_iff.mp hx
  exact ⟨_, isNearest_nearestCode d⟩

namespace Expr

variable (constants : Constants) (text : String)

theorem value_number_eq :
  (literal .number text).value constants =
    match numeral? text with
    | some value => .ok value
    | none => .error (.invalidNumber text)
  := by
  rw [value, valueM, literalValueM]
  cases numeral? text <;> rfl

/-- A number has a value exactly if its text is a numeral below `2 ^ 1024 - 2 ^ 970`. The value is
the one nearest to the number, and has the sign that is written. The error of any other text holds
all of it. -/
theorem value_number_rounds :
  ((∃ value, (literal .number text).value constants = .ok value)
      ↔ ∃ negative x, DenotesNumeral text negative x ∧ x < 2 ^ 1024 - 2 ^ 970)
    ∧ (∀ value, (literal .number text).value constants = .ok value →
        ∀ negative x, DenotesNumeral text negative x →
          RoundsTo (signed negative x) value ∧ signBit value = negative)
    ∧ ∀ error, (literal .number text).value constants = .error error →
        error = .invalidNumber text
  := by
  rw [value_number_eq]
  cases hnumeral : numeral? text with
  | some value =>
    obtain ⟨negative, x, code, hx, hnearest, hlt, rfl⟩ := numeral?_eq_some_iff.mp hnumeral
    constructor
    · constructor
      · intro
        exact ⟨negative, x, hx, hnearest.lt_infinityCode_iff.mp hlt⟩
      · intro
        exact ⟨_, rfl⟩
    constructor
    · rintro value ⟨⟩ negative' x' hx'
      obtain ⟨rfl, rfl⟩ := hx.unique hx'
      use hnearest.roundsTo negative hx.nonneg hlt
      apply signBit_valueOfCode negative hlt.le
    · nofun
  | none =>
    constructor
    · constructor
      · nofun
      · rintro ⟨negative, x, hx, hlt⟩
        obtain ⟨code, hnearest⟩ := hx.exists_isNearest
        have hfinite := hnearest.lt_infinityCode_iff.mpr hlt
        rw [numeral?_eq_some_iff.mpr ⟨negative, x, code, hx, hnearest, hfinite, rfl⟩] at hnumeral
        cases hnumeral
    constructor
    · nofun
    · rintro error ⟨⟩
      rfl

/-- A zero behind a minus sign. -/
theorem value_number_rounds_negative_zero :
  ∃ value, (literal .number "-0").value (fun _ => none) = .ok value
    ∧ RoundsTo 0 value ∧ signBit value = true
  := by
  obtain ⟨hvalue, hrounds, -⟩ := value_number_rounds (fun _ => none) "-0"
  have hzero : DenotesDecimal ['0'] (Nat.ofDigitChars 10 ['0'] 0) :=
    .whole (List.cons_ne_nil _ _) (List.forall_mem_singleton.mpr rfl)
  have h : DenotesNumeral "-0" true 0 := .negative rfl hzero
  have hlt : (0 : ℚ) < 2 ^ 1024 - 2 ^ 970 :=
    sub_pos.mpr (pow_lt_pow_right₀ one_lt_two (by omega))
  obtain ⟨value, hok⟩ := hvalue.mpr ⟨true, 0, h, hlt⟩
  obtain ⟨hnearest, hsign⟩ := hrounds value hok true 0 h
  rw [signed, if_pos rfl, neg_zero] at hnearest
  exact ⟨value, hok, hnearest, hsign⟩

end Expr

end Abacus
