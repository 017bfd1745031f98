import Mathlib.Tactic.Use
import Abacus.Proofs.Parse.Grammar

/-!
# The first token that no expression has

A list of tokens is viable if more tokens make an expression of it, `Viable`. A draft that has
taken all tokens of the list can be completed by a literal, if it waits for one, and by the closings
of its open groups, `Draft.completion`, so the viable lists are those that a draft takes,
`viable_iff_extend`. A reading therefore fails at the first token that no expression goes on with,
`parseTokens_error_viable`: the tokens before it are viable and those up to it are not, and if all
tokens are viable the error is that of the end.
-/

namespace Abacus

/-- More tokens make an expression of the list. -/
def Viable (tokens : List Token) : Prop :=
  ∃ rest e, parseTokens (tokens ++ rest) = .ok e

/-- The error is that of the token: it carries the token, whose text or wording and whose position
it reports. -/
inductive ParseError.Blames (t : Token) : ParseError → Prop
  | unknownOperator : Blames t (.unknownOperator t)
  | unexpectedToken (expected : Expected) : Blames t (.unexpectedToken t expected)
  | trailingToken : Blames t (.trailingToken t)

theorem ParseError.Blames.position?_eq {t : Token} {error : ParseError} (h : error.Blames t) :
  error.position? = some t.position
  := by
  cases h <;> rfl

namespace Draft

variable {d : Draft} {pending : List Pending} {groups : List (List Pending)} {t : Token}

/-! ### Completing a draft -/

/-- The token of the literal that completes an operand. -/
def zeroToken : Token :=
  ⟨.number, "0", 0⟩

/-- The token that closes a group. -/
def closingToken : Token :=
  ⟨.parenthesis, ")", 0⟩

/-- Tokens that make the draft complete: a literal unless an operand is complete already, and the
closings of the open groups. -/
def completion (d : Draft) : List Token :=
  let closings := List.replicate d.groups.length closingToken
  match d.phase with
  | .operand => zeroToken :: closings
  | .signed _ => zeroToken :: closings
  | .after _ => closings

theorem not_isFinish_of_mem_completion :
  ∀ t ∈ d.completion, ¬ t.isFinish
  := by
  rcases d with ⟨_ | _ | _, pending, groups⟩ <;>
    simp [completion, zeroToken, closingToken, Token.isFinish]

/-- The closings of all open groups complete a draft with a complete operand. -/
theorem exists_extend_closings (operand : Expr) :
  ∃ d' e, extend .whole ⟨.after operand, pending, groups⟩
      (List.replicate groups.length closingToken) = some d' ∧ d'.complete? = some e
  := by
  induction groups generalizing operand pending with
  | nil => exact ⟨_, _, rfl, rfl⟩
  | cons group groups ih =>
    have hclosing : extend .whole ⟨.after operand, pending, group :: groups⟩ [closingToken]
        = some ⟨.after (closeAll operand pending), group, groups⟩ :=
      extend_closing rfl
    rw [List.length_cons, List.replicate_succ,
      ← List.singleton_append (x := closingToken), extend_append_of_eq_some _ hclosing]
    apply ih

theorem extend_literal_of_signed {negative : Bool} (ht : t.isLiteral) :
  extend .whole ⟨.signed negative, pending, groups⟩ [t]
    = some ⟨.after (.literal t.kind (signedText negative t.text)), pending, groups⟩
  := by
  apply extend_cons_of_take
  simp only [step, stepSigned, sign?_of_isLiteral ht, ht, if_true]

/-- Every draft can be completed. -/
theorem exists_extend_completion (d : Draft) :
  ∃ d' e, d.extend .whole d.completion = some d' ∧ d'.complete? = some e
  := by
  rcases d with ⟨_ | negative | operand, pending, groups⟩
  · rw [completion, ← List.singleton_append, extend_append_of_eq_some _ (extend_literal rfl)]
    apply exists_extend_closings
  · rw [completion, ← List.singleton_append,
      extend_append_of_eq_some _ (extend_literal_of_signed rfl)]
    apply exists_extend_closings
  · apply exists_extend_closings

/-! ### Tokens that are refused -/

/-- A token is refused in place of what is expected, or with an error of its own, which a marker of
the end never is. -/
theorem error_of_reject {error : ParseError} {taken : Bool}
    (h : (d.step .whole t).move = .reject error taken) :
  (∃ expected, error = .unexpected t expected) ∨ (¬ t.isFinish ∧ error.Blames t)
  := by
  rcases d with ⟨_ | negative | e, pending, groups⟩
  · simp only [step, stepOperand] at h
    repeat' split at h
    all_goals cases h
    exact .inl ⟨_, rfl⟩
  · simp only [step, stepSigned] at h
    repeat' split at h
    all_goals cases h
    exact .inl ⟨_, rfl⟩
  · simp only [step, stepAfter] at h
    split at h
    · next hkind =>
      split at h
      · cases h
        right
        exact ⟨by simp [Token.isFinish, hkind], .unknownOperator⟩
      · simp only [stepOperator] at h
        cases h
    · simp only [stepEnd] at h
      split at h
      · split at h
        · cases h
        · cases h
          exact .inl ⟨_, rfl⟩
      · split at h
        · next htrailing =>
          cases h
          right
          exact ⟨htrailing.2, .trailingToken⟩
        · cases h

/-- The error of a marker of the end that is refused. -/
theorem error_of_reject_finish {position : Nat} {error : ParseError} {taken : Bool}
    (h : (d.step .whole (.finish position)).move = .reject error taken) :
  ∃ expected, error = .unexpectedEnd position expected
  := by
  rcases error_of_reject h with ⟨expected, rfl⟩ | ⟨hfinish, -⟩
  · exact ⟨expected, rfl⟩
  · apply absurd rfl hfinish

/-- The error of any other token that is refused. -/
theorem blames_of_reject {error : ParseError} {taken : Bool} (ht : ¬ t.isFinish)
    (h : (d.step .whole t).move = .reject error taken) :
  error.Blames t
  := by
  rcases error_of_reject h with ⟨expected, rfl⟩ | ⟨-, hblames⟩
  · rw [ParseError.unexpected, if_neg ht]
    apply ParseError.Blames.unexpectedToken
  · apply hblames

/-- A token that is refused extends no draft. -/
theorem extend_cons_of_reject {error : ParseError} {taken : Bool}
    (h : (d.step .whole t).move = .reject error taken) (tokens : List Token) :
  d.extend .whole (t :: tokens) = none
  := by
  simp only [extend, h]

/-- A draft takes all tokens and goes on to the end behind them, or it refuses one of them. -/
theorem extend_or_reject (d : Draft) {tokens : List Token} (finish : Nat)
    (htokens : ∀ t ∈ tokens, ¬ t.isFinish) :
  (∃ d', d.extend .whole tokens = some d'
      ∧ (d.goOn .whole { supply := TokenList.mk tokens finish }).result
        = (d'.goOn .whole { supply := TokenList.mk [] finish }).result)
    ∨ ∃ k t d' error taken, tokens[k]? = some t ∧ d.extend .whole (tokens.take k) = some d'
      ∧ (d'.step .whole t).move = .reject error taken
      ∧ (d.goOn .whole { supply := TokenList.mk tokens finish }).result = .error error
  := by
  induction tokens generalizing d with
  | nil => exact .inl ⟨d, rfl, rfl⟩
  | cons t tokens ih =>
    rw [result_goOn_cons]
    cases hmove : (d.step .whole t).move with
    | take next =>
      dsimp only
      rcases ih next fun u hu => htokens u (List.mem_cons_of_mem t hu) with
        ⟨d', hextend, hresult⟩ | ⟨k, u, d', error, taken, hk, hextend, hrest⟩
      · left
        exact ⟨d', (extend_cons_of_take _ hmove).trans hextend, hresult⟩
      · right
        refine ⟨k + 1, u, d', error, taken, hk, ?_, hrest⟩
        rw [List.take_succ_cons, extend_cons_of_take _ hmove, hextend]
    | finish e => apply absurd (isFinish_of_move hmove) (htokens t List.mem_cons_self)
    | reject error taken =>
      right
      refine ⟨0, t, d, error, taken, rfl, rfl, hmove, ?_⟩
      rfl

/-- The error behind the last token is that of the end. -/
theorem error_of_result_nil {finish : Nat} {error : ParseError}
    (h : (d.goOn .whole { supply := TokenList.mk [] finish }).result = .error error) :
  ∃ expected, error = .unexpectedEnd finish expected
  := by
  rw [result_goOn_nil] at h
  cases hmove : (d.step .whole (.finish finish)).move with
  | take next => apply absurd rfl (not_isFinish_of_take hmove)
  | finish e =>
    simp only [hmove] at h
    cases h
  | reject error' taken =>
    simp only [hmove] at h
    cases h
    apply error_of_reject_finish hmove

end Draft

/-! ### Viable lists -/

theorem beforeFinish_append {tokens : List Token} (htokens : ∀ t ∈ tokens, ¬ t.isFinish)
    (rest : List Token) :
  beforeFinish (tokens ++ rest) = tokens ++ beforeFinish rest
  := by
  apply List.takeWhile_append_of_pos
  intro t ht
  simpa using htokens t ht

theorem beforeFinish_of_all {tokens : List Token} (htokens : ∀ t ∈ tokens, ¬ t.isFinish) :
  beforeFinish tokens = tokens
  := by
  have h := beforeFinish_append htokens []
  have hnil : beforeFinish [] = [] := rfl
  rwa [hnil, List.append_nil] at h

/-- A list of tokens reads as an expression if the tokens before the first marker of the end extend
the empty draft to a complete one. -/
theorem parseTokens_eq_ok_iff (tokens : List Token) (e : Expr) :
  parseTokens tokens = .ok e
    ↔ ∃ d, ({} : Draft).extend .whole (beforeFinish tokens) = some d ∧ d.complete? = some e
  := by
  rw [parseTokens, parse, Goal.read_eq_goOn]
  apply result_goOn_eq_ok_iff
  apply TokenList.gives_beforeFinish

/-- The viable lists are those that a draft takes. -/
theorem viable_iff_extend {tokens : List Token} (htokens : ∀ t ∈ tokens, ¬ t.isFinish) :
  Viable tokens ↔ ∃ d, ({} : Draft).extend .whole tokens = some d
  := by
  constructor
  · rintro ⟨rest, e, h⟩
    obtain ⟨d', hextend, -⟩ := (parseTokens_eq_ok_iff _ _).mp h
    rw [beforeFinish_append htokens, Draft.extend_append] at hextend
    obtain ⟨d, hd, -⟩ := Option.bind_eq_some_iff.mp hextend
    exact ⟨d, hd⟩
  · rintro ⟨d, hd⟩
    obtain ⟨d', e, hcompletion, he⟩ := d.exists_extend_completion
    use d.completion, e
    rw [parseTokens_eq_ok_iff, beforeFinish_append htokens]
    refine ⟨d', ?_, he⟩
    rw [beforeFinish_of_all Draft.not_isFinish_of_mem_completion,
      Draft.extend_append_of_eq_some _ hd, hcompletion]

/-- A reading fails at the first token that no expression goes on with, and with the error of the
end only where more tokens would make an expression. -/
theorem parseTokens_error_viable (tokens : List Token) (error : ParseError)
    (htokens : ∀ t ∈ tokens, ¬ t.isFinish) (h : parseTokens tokens = .error error) :
  (∃ position expected, error = .unexpectedEnd position expected ∧ Viable tokens)
    ∨ ∃ k t, tokens[k]? = some t ∧ error.Blames t ∧ error.position? = some t.position
      ∧ Viable (tokens.take k) ∧ ¬ Viable (tokens.take (k + 1))
  := by
  rw [parseTokens, parse, Goal.read_eq_goOn] at h
  rcases Draft.extend_or_reject {} (TokenList.finishOf tokens) htokens with
    ⟨d, hextend, hresult⟩ | ⟨k, t, d, error', taken, hk, hextend, hmove, hresult⟩
  · left
    rw [TokenList.ofTokens, hresult] at h
    obtain ⟨expected, rfl⟩ := Draft.error_of_result_nil h
    exact ⟨_, expected, rfl, (viable_iff_extend htokens).mpr ⟨d, hextend⟩⟩
  · right
    obtain rfl : error' = error := Except.error.inj (hresult.symm.trans h)
    have hmem : ∀ n, ∀ u ∈ tokens.take n, ¬ u.isFinish := fun n u hu =>
      htokens u (List.mem_of_mem_take hu)
    have hblames := Draft.blames_of_reject (htokens t (List.mem_of_getElem? hk)) hmove
    refine ⟨k, t, hk, hblames, hblames.position?_eq, ?_, ?_⟩
    · rw [viable_iff_extend (hmem k)]
      exact ⟨d, hextend⟩
    · rw [viable_iff_extend (hmem (k + 1)), List.take_add_one, hk]
      rintro ⟨d', hd'⟩
      rw [Option.toList_some, Draft.extend_append_of_eq_some _ hextend,
        Draft.extend_cons_of_reject hmove] at hd'
      cases hd'

/-- In `2 ^ (-x y * ` the name `y` is the first token that no expression goes on with, and the
tokens behind it do not matter. -/
theorem parseTokens_error_viable_in_group :
  parseTokens [⟨.number, "2", 0⟩, ⟨.operator, "^", 2⟩, ⟨.parenthesis, "(", 4⟩, ⟨.operator, "-", 5⟩,
      ⟨.constant, "x", 6⟩, ⟨.constant, "y", 8⟩, ⟨.operator, "*", 10⟩]
    = .error (.unexpectedToken ⟨.constant, "y", 8⟩ .closing)
    ∧ Viable [⟨.number, "2", 0⟩, ⟨.operator, "^", 2⟩, ⟨.parenthesis, "(", 4⟩, ⟨.operator, "-", 5⟩,
      ⟨.constant, "x", 6⟩]
    ∧ ¬ Viable [⟨.number, "2", 0⟩, ⟨.operator, "^", 2⟩, ⟨.parenthesis, "(", 4⟩, ⟨.operator, "-", 5⟩,
      ⟨.constant, "x", 6⟩, ⟨.constant, "y", 8⟩]
  := by
  have herror : parseTokens [⟨.number, "2", 0⟩, ⟨.operator, "^", 2⟩, ⟨.parenthesis, "(", 4⟩,
      ⟨.operator, "-", 5⟩, ⟨.constant, "x", 6⟩, ⟨.constant, "y", 8⟩, ⟨.operator, "*", 10⟩]
      = .error (.unexpectedToken ⟨.constant, "y", 8⟩ .closing) := rfl
  refine ⟨herror, ?_⟩
  rcases parseTokens_error_viable _ _ (by decide) herror with
    ⟨_, _, hend, -⟩ | ⟨k, t, hk, hblames, -, hviable, hnot⟩
  · cases hend
  · cases hblames
    obtain rfl : k = 5 := by
      rcases k with _ | _ | _ | _ | _ | _ | _ | k <;> first | rfl | simp at hk
    exact ⟨hviable, hnot⟩

end Abacus
