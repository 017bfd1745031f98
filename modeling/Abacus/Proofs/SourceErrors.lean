import Mathlib
import Abacus.Calculation
import Abacus.Proofs.Expr.Evaluation
import Abacus.Proofs.Numeral
import Abacus.Proofs.Parse.Signs
import Abacus.Proofs.Parse.Source
import Abacus.Proofs.Parse.ViablePrefix

/-!
# Errors that no source causes

Some of the errors are there for tokens and expressions that come from elsewhere. A source has no
operator that is unknown, its expressions have numbers and constants only as literals, and a text
does not fail. So of the errors of an evaluation only those are left that a number or a constant of
the source gives cause to, `parse_source_errors`.
-/

namespace Abacus

/-- The error is caused by one of the tokens: by a number, behind at most one sign, or by a constant,
whose bare name it holds. -/
inductive EvalError.IsCausedBy (tokens : List Token) : EvalError → Prop
  | number {t : Token} {sign : String} (ht : t ∈ tokens) (hkind : t.kind = .number)
      (htext : isNumberText t.text.toList) (hsign : sign ∈ ["", "+", "-"]) :
      IsCausedBy tokens (.invalidNumber (sign ++ t.text))
  | constant {t : Token} (ht : t ∈ tokens) (hkind : t.kind = .constant)
      (htext : isNameText t.text.toList) : IsCausedBy tokens (.unknownConstant t.text)

/-! ### Unknown operators -/

/-- A reader fails with a fault of its source. -/
theorem Outcome.readFailure_of_toPulled {σ α : Type} {o : Outcome σ α} {error : ParseError} {s : σ}
    (h : o.toPulled = .error error s) :
  ∃ fault, error = .readFailure fault
  := by
  cases o with
  | ok a s => cases h
  | error fault s =>
    cases h
    exact ⟨fault, rfl⟩

theorem ParseError.unexpected_ne_unknownOperator (t u : Token) (expected : Expected) :
  unexpected t expected ≠ .unknownOperator u
  := by
  intro h
  rw [unexpected] at h
  split at h <;> cases h

/-- A token refused as an unknown operator is an operator that has no known symbol. -/
theorem Draft.ofSymbol?_of_reject {d : Draft} {t u : Token} {taken : Bool}
    (h : (d.step .whole t).move = .reject (.unknownOperator u) taken) :
  t.kind = .operator ∧ Operator.ofSymbol? t.text = none
  := by
  generalize herror : ParseError.unknownOperator u = error at h
  rcases d with ⟨_ | negative | e, pending, groups⟩
  · simp only [step, stepOperand] at h
    repeat' split at h
    all_goals cases h
    apply absurd herror.symm (ParseError.unexpected_ne_unknownOperator _ _ _)
  · simp only [step, stepSigned] at h
    repeat' split at h
    all_goals cases h
    apply absurd herror.symm (ParseError.unexpected_ne_unknownOperator _ _ _)
  · simp only [step, stepAfter] at h
    split at h
    · next hkind =>
      split at h
      · next hsymbol => exact ⟨hkind, hsymbol⟩
      · cases h
    · simp only [stepEnd] at h
      repeat' split at h
      all_goals cases h
      · apply absurd herror.symm (ParseError.unexpected_ne_unknownOperator _ _ _)
      · cases herror

/-- The operators that are read have known symbols. -/
theorem CharReader.ofSymbol?_of_readToken {r r' : CharReader} {t : Token}
    (h : r.readToken = .ok t r') (ht : t.kind = .operator) :
  Operator.ofSymbol? t.text ≠ none
  := by
  rcases token_of_readToken h with rfl | ⟨c, run, position, rfl, hsingle, -⟩
  · cases ht
  · have hkind : Token.kindOfFirst c = .operator := ht
    rw [hkind] at hsingle
    obtain rfl := hsingle rfl
    have hc := Token.isOperatorChar_of_kindOfFirst hkind
    simp only [isOperatorChar, Bool.or_eq_true, beq_iff_eq] at hc
    have htext : (Token.ofChars (Token.kindOfFirst c) [c] position).text = String.ofList [c] := by
      rw [hkind]
      rfl
    rw [htext]
    rcases hc with (((rfl | rfl) | rfl) | rfl) | rfl <;> decide

/-- A reader has no unknown operators. -/
theorem parse_ne_unknownOperator (r : CharReader) (t : Token) :
  parse r ≠ .error (.unknownOperator t)
  := by
  intro h
  rw [parse, Goal.read_eq_goOn] at h
  rcases exists_cause_of_result_eq_error h with ⟨s, s', hpull⟩ | ⟨s, s', u, d, taken, hpull, hmove⟩
  · obtain ⟨fault, hfault⟩ := Outcome.readFailure_of_toPulled hpull
    cases hfault
  · obtain ⟨hkind, hsymbol⟩ := Draft.ofSymbol?_of_reject hmove
    apply CharReader.ofSymbol?_of_readToken (Outcome.toPulled_eq_ok_iff.mp hpull) hkind hsymbol

/-! ### Texts -/

/-- A text is read without a fault. -/
theorem parseText_ne_readFailure (text : String) (fault : Fault) :
  parseText text ≠ .error (.readFailure fault)
  := by
  intro h
  obtain ⟨z, htokens⟩ := CharReader.readTokens_ofText text
  rw [parseText, parse, Goal.read_eq_goOn,
    (CharReader.givesUntil_of_readTokens htokens).result_eq] at h
  rcases exists_cause_of_result_eq_error h with ⟨s, s', hpull⟩ | ⟨s, s', t, d, taken, -, hmove⟩
  · rcases s with ⟨_ | ⟨t, tokens⟩, finish⟩ <;> cases hpull
  · rcases Draft.error_of_reject hmove with ⟨expected, herror⟩ | ⟨-, hblames⟩
    · rw [ParseError.unexpected] at herror
      split at herror <;> cases herror
    · cases hblames

/-! ### Evaluations -/

theorem exists_sign_governedText (before : List Token) (text : String) :
  ∃ sign ∈ ["", "+", "-"], governedText before text = sign ++ text
  := by
  rw [governedText]
  split
  · exact ⟨"", by simp, String.empty_append.symm⟩
  · rw [signedText]
    cases negativeSigns (governingSigns before) with
    | false => exact ⟨"+", by simp, rfl⟩
    | true => exact ⟨"-", by simp, rfl⟩

/-- The error of a leaf is caused by the literal that it is made of. -/
theorem isCausedBy_leafError {tokens : List Token} {t : Token} (ht : t ∈ tokens)
    (htext : isLiteralText t.kind t.text.toList) (before : List Token) :
  (Expr.leafError (t.kind, governedText before t.text)).IsCausedBy tokens
  := by
  have hsplit := splitSign_governedText htext before
  cases hkind : t.kind with
  | number =>
    rw [hkind] at htext
    obtain ⟨sign, hsign, hgoverned⟩ := exists_sign_governedText before t.text
    rw [hgoverned]
    apply EvalError.IsCausedBy.number ht hkind htext hsign
  | constant =>
    rw [hkind] at htext
    rw [Expr.leafError]
    dsimp only
    rw [hsplit, String.ofList_toList]
    apply EvalError.IsCausedBy.constant ht hkind htext
  | operator | parenthesis | finish | unknown =>
    rw [hkind] at htext
    cases htext

open CharReader in
/-- A reader has no unknown operators. The error of an expression that is read is caused by a number
or by a constant among the tokens, whatever look-up gives values to the constants. And a text is
read without a fault. -/
theorem parse_source_errors :
  (∀ (r : CharReader) (t : Token), parse r ≠ .error (.unknownOperator t))
    ∧ (∀ (r : CharReader) (e : Expr), parse r = .ok e →
      ∃ tokens z, r.readTokens = .ok tokens z
        ∧ (∀ (constants : Constants) (error : EvalError),
          e.value constants = .error error → error.IsCausedBy tokens)
        ∧ ∀ (σ : Type) (lookup : String → StateM σ (Option Float)) (s : σ) (error : EvalError),
          ((e.valueM lookup).run s).1 = .error error → error.IsCausedBy tokens)
    ∧ ∀ (text : String) (fault : Fault), parseText text ≠ .error (.readFailure fault)
      ∧ ∀ constants, Calculation.value constants text ≠ .error (.parse (.readFailure fault))
  := by
  refine ⟨parse_ne_unknownOperator, ?_, ?_⟩
  · intro r e h
    obtain ⟨tokens, hgives⟩ := exists_gives_of_result_eq_ok h
    obtain ⟨z, htokens⟩ := readTokens_of_gives hgives
    have hleaves := ((parse_eq_ok_iff_derives hgives e).mp h).leaves_eq opensOperand_nil
    have hrun : ∀ (σ : Type) (lookup : String → StateM σ (Option Float)) (s : σ)
        (error : EvalError), ((e.valueM lookup).run s).1 = .error error →
        error.IsCausedBy tokens := by
      intro σ lookup s error herror
      obtain ⟨leaf, hleaf, rfl⟩ := Expr.exists_leafError_of_run_valueM herror
      rw [hleaves] at hleaf
      obtain ⟨t, ht, hliteral, before, rfl⟩ := exists_of_mem_leavesBehind hleaf
      apply isCausedBy_leafError ht (isLiteralText_of_gives hgives t ht hliteral)
    refine ⟨tokens, z, htokens, ?_, hrun⟩
    intro constants error herror
    apply hrun _ (Expr.recordingLookup constants) []
    rw [← herror]
    exact congrArg Prod.fst (Expr.valueAndNames_eq constants e)
  · intro text fault
    have hparse := parseText_ne_readFailure text fault
    use hparse
    intro constants herror
    rw [Calculation.value] at herror
    split at herror
    · next e he =>
      cases herror
      apply hparse he
    · next e he =>
      cases hvalue : e.value constants with
      | error error | ok v =>
        rw [hvalue] at herror
        cases herror

open CharReader in
/-- Two minus signs and a number with two dots, in two pieces. -/
theorem parse_source_errors_two_dots :
  parse (ofSignals (signals [.data [0x2D], .interrupted, .data [0x2D, 0x31, 0x2E, 0x2E]]))
      = .ok (.literal .number "+1..")
    ∧ (Expr.literal .number "+1..").value (fun _ => none) = .error (.invalidNumber "+1..")
    ∧ ∃ tokens z, (ofSignals (signals [.data [0x2D], .interrupted,
        .data [0x2D, 0x31, 0x2E, 0x2E]])).readTokens = .ok tokens z
      ∧ (EvalError.invalidNumber "+1..").IsCausedBy tokens
  := by
  have hparse : parse (ofSignals (signals [.data [0x2D], .interrupted,
      .data [0x2D, 0x31, 0x2E, 0x2E]])) = .ok (.literal .number "+1..") := by
    cbv
  have herror : (Expr.literal .number "+1..").value (fun _ => none)
      = .error (.invalidNumber "+1..") := by
    have hnumeral : numeral? "+1.." = none := by
      rw [numeral?]
      decide
    rw [Expr.value_number_eq, hnumeral]
  obtain ⟨tokens, z, htokens, hcaused, -⟩ := parse_source_errors.2.1 _ _ hparse
  exact ⟨hparse, herror, tokens, z, htokens, hcaused _ _ herror⟩

end Abacus
