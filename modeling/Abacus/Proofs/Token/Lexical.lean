import Abacus.Expr.Readable

/-!
# Characters of literals

The characters that begin a number, a name, an operator or a group are different ones, and none of
them is a blank. So the first character of a literal text tells the kind of the literal,
`isLiteralText_cons_iff`, and the text is not taken for one with a sign.
-/

namespace Abacus

open Unicode

/-! ### Code points of the classes -/

/-- A class has no characters below its ranges. -/
theorem le_toNat_of_inRanges {ranges : List CodeRange} {n : Nat} {c : Char}
    (hranges : ranges.all (fun r => Nat.ble n r.first)) (h : inRanges ranges c) :
  n ≤ c.toNat
  := by
  obtain ⟨r, hr, hcontains⟩ := List.any_eq_true.mp h
  have hle := Nat.le_of_ble_eq_true (List.all_eq_true.mp hranges r hr)
  rw [CodeRange.contains, Bool.and_eq_true] at hcontains
  apply Nat.le_trans hle (Nat.le_of_ble_eq_true hcontains.1)

theorem le_toNat_of_isAlphabetic {c : Char} (h : isAlphabetic c) :
  0x41 ≤ c.toNat
  := by
  apply le_toNat_of_inRanges _ h
  decide +kernel

theorem le_toNat_of_isNumeric {c : Char} (h : isNumeric c) :
  0x30 ≤ c.toNat
  := by
  apply le_toNat_of_inRanges _ h
  decide +kernel

theorem le_toNat_of_isNameStart {c : Char} (h : isNameStart c) :
  0x41 ≤ c.toNat
  := by
  rw [isNameStart, Bool.or_eq_true] at h
  rcases h with h | h
  · apply le_toNat_of_isAlphabetic h
  · rw [eq_of_beq h]
    decide

theorem le_toNat_of_isNameChar {c : Char} (h : isNameChar c) :
  0x30 ≤ c.toNat
  := by
  rw [isNameChar, isAlphanumeric, Bool.or_eq_true, Bool.or_eq_true] at h
  rcases h with (h | h) | h
  · apply Nat.le_trans (by decide) (le_toNat_of_isAlphabetic h)
  · apply le_toNat_of_isNumeric h
  · rw [eq_of_beq h]
    decide

theorem toNat_of_isNumberChar {c : Char} (h : isNumberChar c) :
  0x2E ≤ c.toNat ∧ c.toNat ≤ 0x39
  := by
  rw [isNumberChar, Bool.or_eq_true] at h
  rcases h with h | h
  · obtain ⟨hle, hle'⟩ := Char.isDigit_iff_toNat.mp h
    exact ⟨Nat.le_trans (by decide) hle, hle'⟩
  · rw [eq_of_beq h]
    decide

theorem toNat_of_isOperatorChar {c : Char} (h : isOperatorChar c) :
  c.toNat < 0x41 ∨ c = '^'
  := by
  simp only [isOperatorChar, Bool.or_eq_true, beq_iff_eq] at h
  rcases h with (((rfl | rfl) | rfl) | rfl) | rfl
  all_goals decide

theorem toNat_of_isParenthesis {c : Char} (h : isParenthesis c) :
  c.toNat < 0x2E
  := by
  simp only [isParenthesis, Bool.or_eq_true, beq_iff_eq] at h
  rcases h with rfl | rfl
  all_goals decide

theorem toNat_of_isBlank {c : Char} (h : isBlank c) :
  c.toNat < 0x2E
  := by
  simp only [isBlank, Bool.or_eq_true, beq_iff_eq] at h
  rcases h with (rfl | rfl) | rfl
  all_goals decide

theorem isNameStart_circumflex :
  isNameStart '^' = false
  := by
  decide +kernel

/-- The blanks and the parentheses come before all characters with which a number or a name goes
on. -/
theorem le_toNat_of_continues? {kind : Token.Kind} {p : Char → Bool} {c : Char}
    (hkind : kind.continues? = some p) (h : p c) :
  0x2E ≤ c.toNat
  := by
  cases kind with
  | number =>
    cases hkind
    apply (toNat_of_isNumberChar h).1
  | constant =>
    cases hkind
    apply Nat.le_trans (by decide) (le_toNat_of_isNameChar h)
  | operator | parenthesis | finish | unknown => cases hkind

/-! ### The kind that a character begins -/

namespace Token

theorem kindOfFirst_of_isNumberChar {c : Char} (h : isNumberChar c) :
  kindOfFirst c = .number
  := by
  rw [kindOfFirst, if_pos h]

theorem kindOfFirst_of_isNameStart {c : Char} (h : isNameStart c) :
  kindOfFirst c = .constant
  := by
  have hle := le_toNat_of_isNameStart h
  have hnumber : ¬ isNumberChar c := by
    intro hc
    have := toNat_of_isNumberChar hc
    omega
  have hoperator : ¬ isOperatorChar c := by
    intro hc
    rcases toNat_of_isOperatorChar hc with hlt | rfl
    · omega
    · rw [isNameStart_circumflex] at h
      cases h
  have hparenthesis : ¬ isParenthesis c := by
    intro hc
    have := toNat_of_isParenthesis hc
    omega
  rw [kindOfFirst, if_neg hnumber, if_neg hoperator, if_neg hparenthesis, if_pos h]

theorem kindOfFirst_eq_number_iff (c : Char) :
  kindOfFirst c = .number ↔ isNumberChar c
  := by
  constructor
  · intro h
    rw [kindOfFirst] at h
    split at h
    · next hc => exact hc
    · repeat' split at h
      all_goals cases h
  · apply kindOfFirst_of_isNumberChar

theorem kindOfFirst_eq_constant_iff (c : Char) :
  kindOfFirst c = .constant ↔ isNameStart c
  := by
  constructor
  · intro h
    rw [kindOfFirst] at h
    repeat' split at h
    any_goals cases h
    assumption
  · apply kindOfFirst_of_isNameStart

theorem isOperatorChar_of_kindOfFirst {c : Char} (h : kindOfFirst c = .operator) :
  isOperatorChar c
  := by
  rw [kindOfFirst] at h
  repeat' split at h
  any_goals cases h
  assumption

end Token

/-! ### Literal texts -/

/-- The characters make up a token of the kind, which is one of literals. -/
def isLiteralText (kind : Token.Kind) (chars : List Char) : Bool :=
  match kind with
  | .number => isNumberText chars
  | .constant => isNameText chars
  | _ => false

theorem isReadableLiteral_eq (kind : Token.Kind) (text : String) :
  isReadableLiteral kind text = isLiteralText kind (splitSign text.toList).2
  := by
  cases kind <;> rfl

theorem isLiteralText_nil (kind : Token.Kind) :
  isLiteralText kind [] = false
  := by
  cases kind <;> rfl

/-- The first character of a literal text begins a token of the kind, and the others go on with
it. -/
theorem isLiteralText_cons_iff {kind : Token.Kind} {c : Char} {rest : List Char} :
  isLiteralText kind (c :: rest) ↔
    Token.kindOfFirst c = kind ∧ ∃ p, kind.continues? = some p ∧ ∀ d ∈ rest, p d
  := by
  cases kind with
  | number =>
    simp [isLiteralText, isNumberText, Token.kindOfFirst_eq_number_iff, Token.Kind.continues?]
  | constant =>
    simp [isLiteralText, isNameText, Token.kindOfFirst_eq_constant_iff, Token.Kind.continues?]
  | operator | parenthesis | finish | unknown => simp [isLiteralText, Token.Kind.continues?]

/-- The blanks and the signs come before all characters that begin a literal text. -/
theorem le_toNat_of_isLiteralText {kind : Token.Kind} {c : Char} {rest : List Char}
    (h : isLiteralText kind (c :: rest)) :
  0x2E ≤ c.toNat
  := by
  obtain ⟨hkind, p, hp, -⟩ := isLiteralText_cons_iff.mp h
  cases kind with
  | number =>
    apply (toNat_of_isNumberChar _).1
    rw [← Token.kindOfFirst_eq_number_iff, hkind]
  | constant =>
    apply Nat.le_trans (by decide) (le_toNat_of_isNameStart _)
    rw [← Token.kindOfFirst_eq_constant_iff, hkind]
  | operator | parenthesis | finish | unknown => cases hp

theorem not_isBlank_of_isLiteralText {kind : Token.Kind} {c : Char} {rest : List Char}
    (h : isLiteralText kind (c :: rest)) :
  ¬ isBlank c
  := by
  intro hc
  have hlt := toNat_of_isBlank hc
  have hle := le_toNat_of_isLiteralText h
  omega

/-- A literal text has no sign to be split off. -/
theorem splitSign_of_isLiteralText {kind : Token.Kind} {chars : List Char}
    (h : isLiteralText kind chars) :
  splitSign chars = (false, chars)
  := by
  cases chars with
  | nil => rfl
  | cons c rest =>
    have hle := le_toNat_of_isLiteralText h
    rw [splitSign]
    · rintro rest' ⟨⟩
      apply absurd hle (by decide)
    · rintro rest' ⟨⟩
      apply absurd hle (by decide)

theorem toList_signedText (negative : Bool) (text : String) :
  (signedText negative text).toList = (if negative then '-' else '+') :: text.toList
  := by
  rw [signedText, String.toList_append]
  cases negative <;> rfl

/-- The sign in front of a text is split off again. -/
theorem splitSign_signedText (negative : Bool) (text : String) :
  splitSign (signedText negative text).toList = (negative, text.toList)
  := by
  rw [toList_signedText]
  cases negative <;> rfl

end Abacus
