import Abacus.Proofs.Binary64.Negation
import Abacus.Proofs.ResultText
import Abacus.Proofs.Token.Joining

/-!
# Calculations of signed literals

A run of signs in front of a text that is one literal makes one literal of it: its text is that of the
token behind the sign that the run amounts to, `parseText_signs`. A number is read with this sign, and
a constant is looked up without it; in both cases the value is that of the literal behind the sign, bit
for bit, or the error is that of the literal, `Calculation.value_signs`.
-/

namespace Abacus

/-- The characters of signs, each of them with the blanks behind it. -/
def signChars (signs : List (Bool × List Char)) : List Char :=
  signs.flatMap fun s => (if s.1 then '-' else '+') :: s.2

/-- An odd number of the signs are negative. -/
def oddNegative (signs : List (Bool × List Char)) : Bool :=
  signs.countP (·.1) % 2 = 1

/-- The outcomes of a calculation of a literal with the text and of its calculation behind signs that
amount to the sign. -/
inductive Calculation.SignedOutcome (negative : Bool) (text : String) :
    Except Calculation.Error Float → Except Calculation.Error Float → Prop
  | value {value signed : Float} (h : IsSigned negative value signed) :
      SignedOutcome negative text (.ok value) (.ok signed)
  | unknownConstant (name : String) :
      SignedOutcome negative text (.error (.eval (.unknownConstant name)))
        (.error (.eval (.unknownConstant name)))
  | invalidNumber :
      SignedOutcome negative text (.error (.eval (.invalidNumber text)))
        (.error (.eval (.invalidNumber (signedText negative text))))

/-- The calculation behind signs has a value if that of the literal has one. -/
theorem Calculation.SignedOutcome.exists_ok {negative : Bool} {text : String} {value : Float}
    {outcome : Except Calculation.Error Float}
    (h : SignedOutcome negative text (.ok value) outcome) :
  ∃ signed, outcome = .ok signed ∧ IsSigned negative value signed
  := by
  cases h with
  | value h => exact ⟨_, rfl, h⟩

/-- An invalid number behind signs is reported behind the one that they amount to. -/
theorem Calculation.SignedOutcome.eq_invalidNumber {negative : Bool} {text text' : String}
    {outcome : Except Calculation.Error Float}
    (h : SignedOutcome negative text (.error (.eval (.invalidNumber text'))) outcome) :
  outcome = .error (.eval (.invalidNumber (signedText negative text)))
  := by
  cases h with
  | invalidNumber => rfl

/-! ### Reading the signs -/

/-- The tokens of signs with blanks behind them are signs, as negative as these. -/
theorem tokensOf_signChars {signs : List (Bool × List Char)}
    (hblanks : ∀ s ∈ signs, ∀ c ∈ s.2, isBlank c) (position : Nat) (rest : List Char) :
  ∃ tokens position', tokensOf position (signChars signs ++ rest)
      = tokens ++ tokensOf position' rest
    ∧ tokens.map Token.sign? = signs.map fun s => some s.1
  := by
  induction signs generalizing position with
  | nil => exact ⟨[], position, rfl, rfl⟩
  | cons s signs ih =>
    rw [List.forall_mem_cons] at hblanks
    obtain ⟨tokens, position', htokens, hsigns⟩ := ih hblanks.2 (position + 1 + s.2.length)
    refine ⟨signToken s.1 position :: tokens, position', ?_, ?_⟩
    · have hchars : signChars (s :: signs) ++ rest
          = (signedText s.1 "").toList ++ (s.2 ++ (signChars signs ++ rest)) := by
        rw [toList_signedText]
        simp [signChars]
      rw [hchars, tokensOf_signedText, String.toList_empty, List.nil_append,
        tokensOf_blanks_append _ hblanks.1, htokens, List.cons_append]
    · rw [List.map_cons, sign?_signToken, hsigns, List.map_cons]

/-- Tokens that are signs amount to the sign of these. -/
theorem negativeSigns_of_map_sign? {tokens : List Token} {signs : List (Bool × List Char)}
    (h : tokens.map Token.sign? = signs.map fun s => some s.1) :
  negativeSigns tokens = oddNegative signs
  := by
  have hcount : tokens.countP (fun t => t.sign? = some true) = signs.countP (·.1) := by
    have hmap := congrArg (List.countP (· = some true)) h
    rw [List.countP_map, List.countP_map] at hmap
    simpa [Function.comp_def] using hmap
  rw [negativeSigns, oddNegative, hcount]

section

variable {w : String} {t : Token} (hw : tokensOf 0 w.toList = [t]) (ht : t.isLiteral)
include hw ht

theorem parseText_literal :
  parseText w = .ok (.literal t.kind t.text)
  := by
  rw [parseText_eq_ok_iff_derives, hw]
  apply Derives.mono (.literal ht) (by decide)

/-- Signs in front of a literal are read as the one sign that they amount to. -/
theorem parseText_signs {signs : List (Bool × List Char)} (hne : signs ≠ [])
    (hblanks : ∀ s ∈ signs, ∀ c ∈ s.2, isBlank c) :
  parseText (String.ofList (signChars signs) ++ w)
    = .ok (.literal t.kind (signedText (oddNegative signs) t.text))
  := by
  obtain ⟨tokens, position, htokens, hsigns⟩ := tokensOf_signChars hblanks 0 w.toList
  have hbehind : tokensOf position w.toList = [t.shift position] := by
    rw [← Nat.add_zero position, tokensOf_shift, hw]
    rfl
  have hsome : ∀ s ∈ tokens, s.sign?.isSome := by
    intro s hs
    have hmem := List.mem_map_of_mem (f := Token.sign?) hs
    rw [hsigns] at hmem
    obtain ⟨u, -, hu⟩ := List.mem_map.mp hmem
    rw [← hu]
    rfl
  have htokensne : tokens ≠ [] := by
    rintro rfl
    apply hne
    simpa using hsigns.symm
  rw [parseText_eq_ok_iff_derives, String.toList_append, String.toList_ofList, htokens, hbehind,
    ← negativeSigns_of_map_sign? hsigns]
  have hderives := Derives.signed (t := t.shift position) htokensne hsome ht
  apply hderives.mono (by decide)

end

/-! ### The values of signed literals -/

theorem numeral?_of_splitSign {text : String} {negative : Bool} {chars : List Char}
    (h : splitSign text.toList = (negative, chars)) :
  numeral? text
    = ((Decimal.ofChars? chars).bind Binary64.ofDecimal?).map (valueOfCode negative)
  := by
  rw [numeral?, h]

namespace Calculation

/-- A literal behind a sign has the value of the literal behind the sign, or the error of the
literal. -/
theorem signedOutcome_literal (constants : Constants) {kind : Token.Kind} {text : String}
    (h : isLiteralText kind text.toList) (negative : Bool) :
  SignedOutcome negative text (ofEval ((Expr.literal kind text).value constants))
    (ofEval ((Expr.literal kind (signedText negative text)).value constants))
  := by
  have hsplit := splitSign_of_isLiteralText h
  cases kind with
  | number =>
    rw [Expr.value_number_eq, Expr.value_number_eq, numeral?_of_splitSign hsplit,
      numeral?_of_splitSign (splitSign_signedText negative text)]
    cases hcode : (Decimal.ofChars? text.toList).bind Binary64.ofDecimal? with
    | none => apply SignedOutcome.invalidNumber
    | some code =>
      obtain ⟨d, -, hd⟩ := Option.bind_eq_some_iff.mp hcode
      apply SignedOutcome.value
      apply isSigned_valueOfCode negative (Binary64.ofDecimal?_eq_some_iff.mp hd).2
  | constant =>
    rw [Expr.value_constant_eq, hsplit, String.ofList_toList, Expr.value_constant_signedText]
    cases constants text with
    | none => apply SignedOutcome.unknownConstant
    | some value =>
      apply SignedOutcome.value
      cases negative with
      | false => apply isSigned_refl
      | true => apply isSigned_neg
  | operator | parenthesis | finish | unknown => cases h

/-- A text that is one number or constant has the value of the literal. -/
theorem value_of_tokensOf (constants : Constants) {w : String} {t : Token}
    (hw : tokensOf 0 w.toList = [t]) (ht : t.isLiteral) :
  value constants w = ofEval ((Expr.literal t.kind t.text).value constants)
  := by
  rw [value, parseText_literal hw ht]

/-- Signs in front of a text that is one number or constant amount to one sign. The value is that of
the text, with the other sign bit if an odd number of the signs are negative, and no number stays so.
An unknown constant stays the same, and an invalid number is reported behind the one sign. -/
theorem value_signs (constants : Constants) (w : String) {t : Token} {z : CharReader}
    (hw : (CharReader.ofText w).readTokens = .ok [t] z) (ht : t.isLiteral)
    (signs : List (Bool × List Char)) (hne : signs ≠ [])
    (hblanks : ∀ s ∈ signs, ∀ c ∈ s.2, isBlank c) :
  SignedOutcome (oddNegative signs) t.text (value constants w)
    (value constants (String.ofList (signChars signs) ++ w))
  := by
  obtain ⟨z', htokens⟩ := CharReader.readTokens_ofText w
  have hsplit : tokensOf 0 w.toList = [t] := (EStateM.Result.ok.inj (htokens.symm.trans hw)).1
  have htext : isLiteralText t.kind t.text.toList := by
    apply CharReader.isLiteralText_of_gives (CharReader.givesUntil_of_readTokens hw).gives _ _ ht
    apply List.mem_singleton_self
  rw [value_of_tokensOf constants hsplit ht, value, parseText_signs hsplit ht hne hblanks]
  apply signedOutcome_literal constants htext

/-- Three negative signs among four give the negative zero, and two of them are reported as a positive
sign. -/
theorem value_signs_negative_zero :
  (∃ value', value (fun _ => none) "- +\t--\n 0." = .ok value'
      ∧ signBit value' ∧ codeOf value' = 0)
    ∧ value (fun _ => none) "-\n-1.2.3" = .error (.eval (.invalidNumber "+1.2.3"))
  := by
  constructor
  · obtain ⟨z, hw⟩ := CharReader.readTokens_ofText " 0."
    have htokens : tokensOf 0 " 0.".toList = [⟨.number, "0.", 1⟩] := by
      decide +kernel
    have hcode : (Decimal.ofChars? "0.".toList).bind Binary64.ofDecimal? = some 0 := by
      decide +kernel
    have hvalue : value (fun _ => none) " 0." = .ok (valueOfCode false 0) := by
      rw [value_of_tokensOf _ htokens rfl, Expr.value_number_eq,
        @numeral?_of_splitSign "0." false "0.".toList rfl, hcode]
      rfl
    rw [htokens] at hw
    have hsigned := value_signs (fun _ => none) " 0." hw rfl
      [(true, [' ']), (false, ['\t']), (true, []), (true, ['\n'])] (List.cons_ne_nil _ _)
      (by simp [isBlank])
    rw [hvalue] at hsigned
    obtain ⟨value', hvalue', hbits⟩ := hsigned.exists_ok
    have hnumber : ¬ (valueOfCode false 0).isNaN := by
      decide +kernel
    refine ⟨value', hvalue', ?_, ?_⟩
    · rw [hbits.signBit_eq hnumber]
      decide +kernel
    · rw [hbits.codeOf_eq hnumber]
      decide +kernel
  · obtain ⟨z, hw⟩ := CharReader.readTokens_ofText "1.2.3"
    have htokens : tokensOf 0 "1.2.3".toList = [⟨.number, "1.2.3", 0⟩] := by
      decide +kernel
    have hcode : (Decimal.ofChars? "1.2.3".toList).bind Binary64.ofDecimal? = none := by
      decide +kernel
    have hvalue : value (fun _ => none) "1.2.3" = .error (.eval (.invalidNumber "1.2.3")) := by
      rw [value_of_tokensOf _ htokens rfl, Expr.value_number_eq,
        @numeral?_of_splitSign "1.2.3" false "1.2.3".toList rfl, hcode]
      rfl
    rw [htokens] at hw
    have hsigned := value_signs (fun _ => none) "1.2.3" hw rfl
      [(true, ['\n']), (true, [])] (List.cons_ne_nil _ _) (by simp [isBlank])
    rw [hvalue] at hsigned
    exact hsigned.eq_invalidNumber

end Calculation

end Abacus
