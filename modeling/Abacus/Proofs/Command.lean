import Mathlib
import Abacus.Command
import Abacus.Proofs.ResultText

/-!
# The output of the command given to it again

The command prints an expression and its value with an equals sign between them, which neither of
them contains. Both can be given to the command again: the expression is read as itself, and the
value, unless it is no number, has itself as its value, `Command.run_output_again`.
-/

namespace Abacus

/-! ### Texts without an equals sign -/

theorem equals_notMem_of_isLiteralText {kind : Token.Kind} {chars : List Char}
    (h : isLiteralText kind chars) :
  '=' ∉ chars
  := by
  intro hmem
  cases chars with
  | nil => cases hmem
  | cons c run =>
    obtain ⟨rfl, p, hp, hrun⟩ := isLiteralText_cons_iff.mp h
    rcases List.mem_cons.mp hmem with rfl | hmem
    · have hunknown : (Token.kindOfFirst '=').continues? = none := by decide +kernel
      rw [hunknown] at hp
      cases hp
    · have hequals := hrun '=' hmem
      cases hkind : Token.kindOfFirst c with
      | number =>
        rw [hkind] at hp
        cases hp
        revert hequals
        decide
      | constant =>
        rw [hkind] at hp
        cases hp
        revert hequals
        decide +kernel
      | operator | parenthesis | finish | unknown =>
        rw [hkind] at hp
        cases hp

theorem equals_notMem_of_isReadableLiteral {kind : Token.Kind} {text : String}
    (h : isReadableLiteral kind text) :
  '=' ∉ text.toList
  := by
  rw [isReadableLiteral_eq] at h
  have hbody := equals_notMem_of_isLiteralText h
  rcases eq_signedText_or_splitSign_eq text with ⟨negative, body, rfl, hsplit⟩ | hsplit
  · rw [hsplit] at hbody
    rw [toList_signedText, List.mem_cons, not_or]
    refine ⟨?_, hbody⟩
    cases negative <;> decide
  · rwa [hsplit] at hbody

theorem equals_notMem_render {e : Expr} (h : e.isReadable) :
  '=' ∉ e.render.toList
  := by
  induction e with
  | literal kind text => apply equals_notMem_of_isReadableLiteral h
  | binary op left right ihleft ihright =>
    rw [Expr.isReadable, Bool.and_eq_true] at h
    have hleft := ihleft h.1
    have hright := ihright h.2
    have hsymbol : '=' ∉ op.symbol.toList := by cases op <;> decide
    simp [Expr.render, String.toList_append, hleft, hright, hsymbol]

theorem equals_notMem_resultText (value : Float) :
  '=' ∉ (resultText value).toList
  := by
  by_cases hnan : resultText value = "NaN"
  · rw [hnan]
    decide
  · obtain ⟨kind, hliteral, -⟩ := @exists_literal_of_resultText (fun _ => some infinity) rfl _ hnan
    apply equals_notMem_of_isReadableLiteral hliteral

/-- A text with one equals sign is split there in one way. -/
theorem eq_of_append_equals {left right left' right' : String} (hleft : '=' ∉ left.toList)
    (hright : '=' ∉ right.toList)
    (h : left ++ " = " ++ right ++ "\n" = left' ++ " = " ++ right' ++ "\n") :
  left' = left ∧ right' = right
  := by
  have hchars := congrArg String.toList h
  have hsplit : ∀ l r : String, (l ++ " = " ++ r ++ "\n").toList
      = (l.toList ++ [' ']) ++ '=' :: (' ' :: r.toList ++ ['\n']) := by
    intro l r
    simp [String.toList_append]
  have hfront : '=' ∉ left.toList ++ [' '] := by simp [hleft]
  have hback : '=' ∉ ' ' :: right.toList ++ ['\n'] := by simp [hright]
  rw [hsplit, hsplit, List.append_cons_inj_of_notMem hfront hback] at hchars
  obtain ⟨hl, -, hr⟩ := hchars
  have hr := List.append_cancel_right (List.tail_eq_of_cons_eq hr)
  exact ⟨String.toList_inj.mp (List.append_cancel_right hl).symm, String.toList_inj.mp hr.symm⟩

namespace Command

/-! ### Runs -/

/-- What a run prints if the words make up an expression with a value. -/
theorem run_of_value {args : List String} {quiet : Bool} {words : List String} {e : Expr}
    {value : Float} (hargs : Arguments.ofList args = ⟨quiet, words⟩)
    (hparse : parseText (" ".intercalate words) = .ok e)
    (hvalue : e.value constants = .ok value) :
  run args
    = { stdout := (if quiet then resultText value else e.render ++ " = " ++ resultText value)
          ++ "\n" }
  := by
  simp only [run, hargs, hparse, hvalue]

/-- A run succeeds only if the words make up an expression with a value. -/
theorem exists_value_of_status {args : List String} (h : (run args).status = 0) :
  ∃ e value, parseText (" ".intercalate (Arguments.ofList args).words) = .ok e
    ∧ e.value constants = .ok value
  := by
  rw [run] at h
  dsimp only at h
  split at h
  · cases h
  · next e hparse =>
    split at h
    · cases h
    · next value hvalue => exact ⟨e, value, hparse, hvalue⟩

/-- A text behind the end of the options is the only word. -/
theorem ofList_of_word (text : String) :
  Arguments.ofList ["--", text] = ⟨false, [text]⟩
    ∧ Arguments.ofList ["-q", "--", text] = ⟨true, [text]⟩
  := ⟨rfl, rfl⟩

/-- A run that succeeds and is not quiet prints an expression and its value, which can be told
apart. The expression is printed again with the same value if it is given to the command, the value
is printed alone if the run is quiet, and so it is if the value itself is given to the command,
unless it is no number. -/
theorem run_output_again (args : List String) (hquiet : (Arguments.ofList args).quiet = false)
    (hstatus : (run args).status = 0) :
  ∃ expression value, run args = { stdout := expression ++ " = " ++ value ++ "\n" }
    ∧ (∀ expression' value', run args = { stdout := expression' ++ " = " ++ value' ++ "\n" } →
      expression' = expression ∧ value' = value)
    ∧ run ["--", expression] = run args
    ∧ run ["-q", "--", expression] = { stdout := value ++ "\n" }
    ∧ (value ≠ "NaN" → run ["-q", "--", value] = { stdout := value ++ "\n" })
  := by
  obtain ⟨e, value, hparse, hvalue⟩ := exists_value_of_status hstatus
  have hreadable := Expr.isReadable_of_parse hparse
  have hrender := parseText_of_isReadable hreadable
  have hargs : Arguments.ofList args = ⟨false, (Arguments.ofList args).words⟩ := by
    rw [← hquiet]
  have hrun := run_of_value hargs hparse hvalue
  refine ⟨e.render, resultText value, hrun, ?_, ?_, ?_, ?_⟩
  · intro expression' value' hrun'
    rw [hrun, Output.mk.injEq] at hrun'
    apply eq_of_append_equals (equals_notMem_render hreadable) (equals_notMem_resultText value)
      hrun'.2.1
  · rw [hrun]
    apply run_of_value (ofList_of_word _).1 hrender hvalue
  · apply run_of_value (ofList_of_word _).2 hrender hvalue
  · intro hnan
    have hinfinity : constants "Inf" = some infinity := rfl
    obtain ⟨kind, hliteral, hliteralValue⟩ := exists_literal_of_resultText hinfinity hnan
    apply run_of_value (ofList_of_word _).2 (parseText_of_isReadableLiteral hliteral) hliteralValue

/-- A minus sign and the name of infinity as two words, which are printed as one literal. -/
theorem run_output_again_infinity :
  run ["-", "Inf"] = { stdout := "-Inf = -Inf\n" }
    ∧ run ["--", "-Inf"] = { stdout := "-Inf = -Inf\n" }
    ∧ run ["-q", "--", "-Inf"] = { stdout := "-Inf\n" }
  := by
  have hname : isLiteralText .constant "Inf".toList := by decide +kernel
  have htokens : tokensOf 0 "- Inf".toList
      = [⟨.operator, "-", 0⟩] ++ [⟨.constant, "Inf", 2⟩] := by
    have hchars : "- Inf".toList = '-' :: ' ' :: ("Inf".toList ++ []) := by decide
    rw [hchars, tokensOf_of_single (by decide) (by decide), tokensOf_of_blank rfl,
      tokensOf_literal hname endsRuns_nil, tokensOf]
    decide
  have hsigns : ∀ s ∈ [Token.mk .operator "-" 0], s.sign?.isSome := by decide
  have hparse : parseText "- Inf" = .ok (.literal .constant "-Inf") := by
    rw [parseText_eq_ok_iff_derives, htokens]
    apply Derives.mono (Derives.signed (List.cons_ne_nil _ _) hsigns rfl) (by decide)
  have hvalue : (Expr.literal .constant "-Inf").value constants = .ok (-infinity) :=
    Expr.value_constant_signedText constants true "Inf"
  have htext : resultText (-infinity) = "-Inf" := by
    rw [resultText_of_isInf (by decide)]
    decide
  have hwords : Arguments.ofList ["-", "Inf"] = ⟨false, ["-", "Inf"]⟩ := rfl
  have hrun := run_of_value hwords hparse hvalue
  obtain ⟨expression, value, hprinted, hunique, hagain, hquiet, -⟩ :=
    run_output_again ["-", "Inf"] rfl (by rw [hrun])
  rw [htext] at hrun
  obtain ⟨rfl, rfl⟩ := hunique "-Inf" "-Inf" hrun
  exact ⟨hprinted, hagain.trans hprinted, hquiet⟩

end Command

end Abacus
