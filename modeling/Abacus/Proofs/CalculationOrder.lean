import Mathlib
import Abacus.Calculation
import Abacus.Proofs.Expr.Evaluation
import Abacus.Proofs.Expr.Rendering
import Abacus.Proofs.Numeral
import Abacus.Proofs.Parse.Signs
import Abacus.Proofs.Parse.Source

/-!
# The order of a calculation

A calculation evaluates the literals of its text in the order in which they stand there, whatever
the precedences, the groups and the directions of grouping make of them, and stops at the first one
without a value. So its outcome and the names that it asks for can be read off the tokens of the
text, `Calculation.value_visits_literals`.
-/

namespace Abacus

/-! ### The value of a literal -/

/-- The literal has a value by itself: a numeral that is not too large has one, and a name has one
if it is that of a constant. -/
def Token.HasValue (constants : Constants) (t : Token) : Prop :=
  match t.kind with
  | .number => ∃ x, DenotesDecimal t.text.toList x ∧ x < 2 ^ 1024 - 2 ^ 970
  | .constant => ∃ v, constants t.text = some v
  | _ => False

/-- The error of a literal without a value behind the tokens `before`: that of a number holds the
sign that governs it, and that of a constant the bare name. -/
def Token.valueError (before : List Token) (t : Token) : EvalError :=
  match t.kind with
  | .number => .invalidNumber (governedText before t.text)
  | .constant => .unknownConstant t.text
  | kind => .meaninglessLiteral kind

/-- The names of the constants among the tokens, in order. -/
def constantNames (tokens : List Token) : List String :=
  (tokens.filter fun t => t.kind = .constant).map Token.text

theorem constantNames_append (tokens tokens' : List Token) :
  constantNames (tokens ++ tokens') = constantNames tokens ++ constantNames tokens'
  := by
  rw [constantNames, List.filter_append, List.map_append]
  rfl

/-- A numeral has a value unless it is too large. -/
theorem exists_numeral?_iff {text : String} :
  (∃ v, numeral? text = some v)
    ↔ ∃ x, DenotesDecimal (splitSign text.toList).2 x ∧ x < 2 ^ 1024 - 2 ^ 970
  := by
  constructor
  · rintro ⟨v, hv⟩
    obtain ⟨negative, x, code, hx, hnearest, hlt, -⟩ := numeral?_eq_some_iff.mp hv
    exact ⟨x, (denotesNumeral_iff.mp hx).2, hnearest.lt_infinityCode_iff.mp hlt⟩
  · rintro ⟨x, hx, hlt⟩
    have hnumeral : DenotesNumeral text (splitSign text.toList).1 x :=
      denotesNumeral_iff.mpr ⟨rfl, hx⟩
    obtain ⟨code, hnearest⟩ := hnumeral.exists_isNearest
    have hfinite := hnearest.lt_infinityCode_iff.mpr hlt
    exact ⟨_, numeral?_eq_some_iff.mpr ⟨_, x, code, hnumeral, hnearest, hfinite, rfl⟩⟩

/-! ### The leaves that tokens make -/

section

variable {constants : Constants} {t : Token} (h : isLiteralText t.kind t.text.toList)
  (before : List Token)

include h

/-- A leaf has a value if the literal that it is made of has one. -/
theorem exists_leafValue_iff :
  (∃ v, Expr.leafValue constants (t.kind, governedText before t.text) = .ok v)
    ↔ t.HasValue constants
  := by
  obtain ⟨kind, text, position⟩ := t
  have hsplit := splitSign_governedText h before
  cases kind with
  | number =>
    have hnumeral := @exists_numeral?_iff (governedText before text)
    rw [hsplit] at hnumeral
    rw [Expr.leafValue, Expr.value_number_eq]
    apply Iff.trans _ hnumeral
    cases numeral? (governedText before text) <;> simp
  | constant =>
    rw [Expr.leafValue, Expr.value_constant_eq, hsplit, String.ofList_toList]
    dsimp only [Token.HasValue]
    cases constants text <;> simp
  | operator | parenthesis | finish | unknown => cases h

/-- A leaf without a value has the error of its literal. -/
theorem leafValue_eq_valueError (hvalue : ¬ t.HasValue constants) :
  Expr.leafValue constants (t.kind, governedText before t.text) = .error (t.valueError before)
  := by
  rw [← exists_leafValue_iff h before] at hvalue
  obtain ⟨kind, text, position⟩ := t
  cases kind with
  | number =>
    rw [Expr.leafValue, Expr.value_number_eq] at hvalue ⊢
    cases hnumeral : numeral? (governedText before text) with
    | none => rfl
    | some v =>
      rw [hnumeral] at hvalue
      exact absurd ⟨v, rfl⟩ hvalue
  | constant =>
    rw [Expr.leafValue, Expr.value_constant_eq, splitSign_governedText h,
      String.ofList_toList] at hvalue ⊢
    cases hname : constants text with
    | none => rfl
    | some v =>
      rw [hname] at hvalue
      exact absurd ⟨_, rfl⟩ hvalue
  | operator | parenthesis | finish | unknown => cases h

/-- A leaf asks for the text of its literal, if that one is a constant. -/
theorem nameAsked?_governedText :
  (Expr.nameAsked? (t.kind, governedText before t.text)).toList = constantNames [t]
  := by
  obtain ⟨kind, text, position⟩ := t
  cases kind with
  | constant => simp [Expr.nameAsked?, constantNames, splitSign_governedText h]
  | number => rfl
  | operator | parenthesis | finish | unknown => cases h

end

section

variable {constants : Constants} {tokens : List Token}
  (h : ∀ t ∈ tokens, t.isLiteral → isLiteralText t.kind t.text.toList) (before : List Token)

include h

/-- The leaves have values if the literals that they are made of have them. -/
theorem forall_leavesBehind_iff :
  (∀ leaf ∈ leavesBehind before tokens, ∃ v, Expr.leafValue constants leaf = .ok v)
    ↔ ∀ t ∈ tokens, t.isLiteral → t.HasValue constants
  := by
  induction tokens generalizing before with
  | nil => exact iff_of_true (List.forall_mem_nil _) (List.forall_mem_nil _)
  | cons t tokens ih =>
    rw [List.forall_mem_cons] at h ⊢
    by_cases ht : t.isLiteral
    · rw [leavesBehind_cons_of_isLiteral before ht, List.forall_mem_cons,
        exists_leafValue_iff (h.1 ht), ih h.2]
      simp [ht]
    · rw [leavesBehind_cons_of_not_isLiteral before (Bool.eq_false_iff.mpr ht), ih h.2]
      simp [ht]

/-- The leaves ask for the constants among the literals. -/
theorem filterMap_nameAsked?_leavesBehind :
  (leavesBehind before tokens).filterMap Expr.nameAsked? = constantNames tokens
  := by
  induction tokens generalizing before with
  | nil => rfl
  | cons t tokens ih =>
    rw [List.forall_mem_cons] at h
    have happend := constantNames_append [t] tokens
    rw [List.singleton_append] at happend
    by_cases ht : t.isLiteral
    · rw [leavesBehind_cons_of_isLiteral before ht, ← List.singleton_append, List.filterMap_append,
        Expr.filterMap_singleton_nameAsked?, nameAsked?_governedText (h.1 ht), ih h.2, happend]
    · have hname : constantNames [t] = [] := by
        rw [Token.isLiteral, Bool.or_eq_true, not_or, decide_eq_true_iff, decide_eq_true_iff] at ht
        simp [constantNames, ht.2]
      rw [leavesBehind_cons_of_not_isLiteral before (Bool.eq_false_iff.mpr ht), ih h.2, happend,
        hname, List.nil_append]

end

/-! ### Calculations -/

namespace Calculation

variable (constants : Constants)

/-- The value that is calculated, and the names asked for, are those of the expression. -/
theorem valueAndNames_of_parseText {text : String} {e : Expr} (h : parseText text = .ok e) :
  value constants text = ofEval (e.value constants)
    ∧ valueAndNames constants text = (ofEval (e.value constants), e.namesAsked constants)
  := by
  rw [value, valueAndNames, h]
  dsimp only
  rw [Expr.valueAndNames_eq]
  exact ⟨rfl, rfl⟩

theorem exists_ofEval_iff (outcome : Except EvalError Float) :
  (∃ v, ofEval outcome = .ok v) ↔ ∃ v, outcome = .ok v
  := by
  cases outcome <;> simp [ofEval, Except.mapError]

/-- A calculation visits the literals of a text that reads as an expression in the order in which
they stand there. If they all have values, there is a value, and all the constants are asked for.
The error is otherwise that of the first literal that has none, and the constants are asked for up
to that literal. So constants that are not asked for have no influence. -/
theorem value_visits_literals (text : String) (e : Expr) (h : parseText text = .ok e) :
  ∃ tokens z, (CharReader.ofText text).readTokens = .ok tokens z
    ∧ (valueAndNames constants text).1 = value constants text
    ∧ ((∃ v, value constants text = .ok v) ↔ ∀ t ∈ tokens, t.isLiteral → t.HasValue constants)
    ∧ ((∃ v, value constants text = .ok v) →
        (valueAndNames constants text).2 = constantNames tokens)
    ∧ (∀ before t after, tokens = before ++ t :: after → t.isLiteral → ¬ t.HasValue constants →
        (∀ u ∈ before, u.isLiteral → u.HasValue constants) →
        value constants text = .error (.eval (t.valueError before))
          ∧ (valueAndNames constants text).2 = constantNames (before ++ [t]))
    ∧ ∀ constants' : Constants,
        (∀ name ∈ (valueAndNames constants text).2, constants' name = constants name) →
        valueAndNames constants' text = valueAndNames constants text
  := by
  obtain ⟨z, htokens⟩ := CharReader.readTokens_ofText text
  have htexts := CharReader.isLiteralText_of_gives (CharReader.givesUntil_of_readTokens htokens).gives
  have hderives := (parseText_eq_ok_iff_derives text e).mp h
  have hleaves := hderives.leaves_eq opensOperand_nil
  obtain ⟨hvalue, hnames⟩ := valueAndNames_of_parseText constants h
  generalize tokensOf 0 text.toList = tokens at htokens htexts hleaves
  refine ⟨tokens, z, htokens, ?_, ?_, ?_, ?_, ?_⟩
  · rw [hvalue, hnames]
  · rw [hvalue, exists_ofEval_iff, Expr.exists_value_iff, hleaves, forall_leavesBehind_iff htexts]
  · intro hok
    rw [hvalue, exists_ofEval_iff, Expr.exists_value_iff] at hok
    rw [hnames, (Expr.value_of_forall_leaves hok).2, hleaves,
      filterMap_nameAsked?_leavesBehind htexts]
  · rintro before t after rfl ht hbad hbefore
    rw [List.forall_mem_append, List.forall_mem_cons] at htexts
    obtain ⟨htextsBefore, htext, -⟩ := htexts
    rw [leavesBehind_append, List.nil_append, leavesBehind_cons_of_isLiteral before ht] at hleaves
    obtain ⟨herror, hasked⟩ := Expr.value_of_first_error hleaves
      ((forall_leavesBehind_iff htextsBefore []).mpr hbefore)
      (leafValue_eq_valueError (htext ht) before hbad)
    rw [hvalue, hnames, herror, hasked, List.filterMap_append,
      filterMap_nameAsked?_leavesBehind htextsBefore, Expr.filterMap_singleton_nameAsked?,
      nameAsked?_governedText (htext ht), ← constantNames_append]
    exact ⟨rfl, rfl⟩
  · intro constants' hagree
    rw [hnames] at hagree
    obtain ⟨hvalue', hnames'⟩ := Expr.value_congr hagree
    rw [(valueAndNames_of_parseText constants' h).2, hvalue', hnames', hnames]

/-- The tokens of a text in which a number with two dots stands behind a constant and a sign. -/
theorem tokensOf_two_dots :
  tokensOf 0 "x*-1.2.3*y".toList
    = [⟨.constant, "x", 0⟩, ⟨.operator, "*", 1⟩, ⟨.operator, "-", 2⟩]
      ++ ⟨.number, "1.2.3", 3⟩ :: [⟨.operator, "*", 8⟩, ⟨.constant, "y", 9⟩]
  := by
  have hchars : "x*-1.2.3*y".toList = "x".toList ++ (Operator.mul.symbol.toList
      ++ ((signedText true "1.2.3").toList ++ (Operator.mul.symbol.toList ++ ("y".toList ++ [])))) := by
    decide
  have hx : isLiteralText .constant "x".toList := by decide +kernel
  have hy : isLiteralText .constant "y".toList := by decide +kernel
  have hnumber : isLiteralText .number "1.2.3".toList := by decide
  have hends : ∀ rest, EndsRuns (Operator.mul.symbol.toList ++ rest) := by
    intro rest
    have hmul : Operator.mul.symbol.toList = ['*'] := by decide
    rw [hmul]
    apply endsRuns_cons (by decide)
  rw [hchars, tokensOf_literal hx (hends _), tokensOf_symbol, tokensOf_signedText,
    tokensOf_literal hnumber (hends _), tokensOf_symbol, tokensOf_literal hy endsRuns_nil, tokensOf]
  decide

/-- The calculation stops at the number, and the constant behind it is not asked for. -/
theorem value_visits_literals_two_dots :
  value (fun _ => some 1) "x*-1.2.3*y" = .error (.eval (.invalidNumber "-1.2.3"))
    ∧ (valueAndNames (fun _ => some 1) "x*-1.2.3*y").2 = ["x"]
  := by
  have hsigns : ∀ s ∈ [Token.mk .operator "-" 2], s.sign?.isSome := by decide
  have hnumber : Derives .factor [⟨.operator, "-", 2⟩, ⟨.number, "1.2.3", 3⟩]
      (.literal .number "-1.2.3") := .signed (List.cons_ne_nil _ _) hsigns rfl
  have hproduct : Derives .product ([⟨.constant, "x", 0⟩] ++ ⟨.operator, "*", 1⟩
      :: [⟨.operator, "-", 2⟩, ⟨.number, "1.2.3", 3⟩]) _ :=
    .product (.inl rfl) (.ofPower (.ofFactor (.literal rfl))) ⟨rfl, rfl⟩ (.ofFactor hnumber)
  have hderives : Derives .sum (tokensOf 0 "x*-1.2.3*y".toList)
      (.binary .mul (.binary .mul (.literal .constant "x") (.literal .number "-1.2.3"))
        (.literal .constant "y")) := by
    rw [tokensOf_two_dots]
    apply Derives.ofProduct
    apply Derives.product (.inl rfl) hproduct ⟨rfl, rfl⟩ (.ofFactor (.literal rfl))
  obtain ⟨tokens, z, htokens, -, -, -, herror, -⟩ := value_visits_literals (fun _ => some 1) _ _
    ((parseText_eq_ok_iff_derives _ _).mpr hderives)
  obtain ⟨z', htokens'⟩ := CharReader.readTokens_ofText "x*-1.2.3*y"
  rw [htokens', tokensOf_two_dots] at htokens
  cases htokens
  have hbad : ¬ (Token.mk .number "1.2.3" 3).HasValue (fun _ => some 1) := by
    rintro ⟨x, hx, -⟩
    obtain ⟨d, hd, -⟩ := denotesDecimal_iff.mp hx
    have hnone : Decimal.ofChars? "1.2.3".toList = none := by decide
    rw [hnone] at hd
    cases hd
  apply herror _ _ _ rfl rfl hbad
  simp [Token.isLiteral, Token.HasValue]

end Calculation

end Abacus
