import Abacus.Parse.Automaton
import Abacus.Proofs.Parse.Climbing

/-!
# Drafts as states of the automaton

Which tokens a draft takes, and what ends its reading, depends on its phase and on the number of its
open groups only, `Draft.state`: a token moves a draft as it moves the automaton of the grammar,
`Draft.verdict_step`. The precedence of the waiting operators decides which operands they get, but
never whether a token is taken. A list of tokens is therefore read as an expression exactly if the
automaton accepts it, and it fails with the error of the automaton otherwise,
`parseTokens_eq_automaton_run`. A draft stands for nested calls with a minimum precedence each, so
the minimums decide nothing either: an operator that the inner calls refuse is taken by an outer
one, `climbing_eq_automaton_run`.
-/

namespace Abacus

/-- The place of an operand in the phase. -/
def Phase.place : Phase → Automaton.Place
  | .operand => .operand
  | .signed _ => .signed
  | .after _ => .after

/-- The state of the automaton behind the tokens that the draft has taken. -/
def Draft.state (d : Draft) : Automaton.State :=
  ⟨d.phase.place, d.groups.length⟩

/-- The state to which a move leads, `none` if it ends the expression. -/
def Move.verdict : Move → Except ParseError (Option Automaton.State)
  | .take next => .ok (some next.state)
  | .finish _ => .ok none
  | .reject error _ => .error error

/-! ### One token -/

namespace Draft

variable (d : Draft) (t : Token)

theorem verdict_stepOperand :
  (d.stepOperand t).verdict = Automaton.step ⟨.operand, d.groups.length⟩ t
  := by
  simp only [stepOperand, Automaton.step]
  cases t.sign? with
  | some negative => rfl
  | none =>
    simp only [Option.isSome_none, Bool.false_eq_true, if_false]
    by_cases hliteral : t.isLiteral
    · rw [if_pos hliteral, if_pos hliteral]
      rfl
    · rw [if_neg hliteral, if_neg hliteral]
      split <;> rfl

theorem verdict_stepSigned (negative : Bool) :
  (d.stepSigned negative t).verdict = Automaton.step ⟨.signed, d.groups.length⟩ t
  := by
  simp only [stepSigned, Automaton.step]
  cases t.sign? with
  | some more => rfl
  | none =>
    simp only [Option.isSome_none, Bool.false_eq_true, if_false]
    split <;> rfl

/-- A known operator is taken, whatever operators wait. -/
theorem verdict_stepOperator (e : Expr) (op : Operator) :
  (d.stepOperator .whole e op).move.verdict = .ok (some ⟨.operand, d.groups.length⟩)
  := rfl

/-- Behind an operand, only the number of the open groups decides what a token other than an
operator does. -/
theorem verdict_stepEnd (e : Expr) (hkind : t.kind ≠ .operator) :
  (d.stepEnd .whole e t).move.verdict = Automaton.step ⟨.after, d.groups.length⟩ t
  := by
  simp only [stepEnd, Automaton.step, if_neg hkind]
  cases d.groups with
  | nil =>
    simp only [List.length_nil, true_and]
    by_cases hfinish : t.isFinish
    · rw [if_neg (not_not_intro hfinish), if_pos hfinish]
      rfl
    · rw [if_pos hfinish, if_neg hfinish]
      rfl
  | cons group groups =>
    simp only [List.length_cons]
    split <;> rfl

theorem verdict_stepAfter (e : Expr) :
  (d.stepAfter .whole e t).move.verdict = Automaton.step ⟨.after, d.groups.length⟩ t
  := by
  rw [stepAfter]
  by_cases hkind : t.kind = .operator
  · rw [if_pos hkind, Automaton.step, if_pos hkind]
    cases Operator.ofSymbol? t.text with
    | none => rfl
    | some op => apply verdict_stepOperator
  · rw [if_neg hkind]
    apply verdict_stepEnd d t e hkind

/-- A token moves a draft as it moves the automaton. -/
theorem verdict_step :
  (d.step .whole t).move.verdict = Automaton.step d.state t
  := by
  rcases d with ⟨_ | negative | e, pending, groups⟩
  · apply verdict_stepOperand
  · apply verdict_stepSigned
  · apply verdict_stepAfter

/-! ### All tokens -/

/-- What is left of the result of a reading without its expression is the answer of the
automaton. -/
theorem map_result_goOn_eq_run (tokens : List Token) (finish : Nat) :
  (d.goOn .whole { supply := TokenList.mk tokens finish }).result.map (fun _ => ())
    = Automaton.run finish d.state tokens
  := by
  induction tokens generalizing d with
  | nil =>
    rw [result_goOn_nil, Automaton.run, ← verdict_step]
    cases hmove : (d.step .whole (.finish finish)).move with
    | take next => apply absurd rfl (not_isFinish_of_take hmove)
    | finish e | reject error taken => rfl
  | cons t tokens ih =>
    rw [result_goOn_cons, Automaton.run, ← verdict_step]
    cases (d.step .whole t).move with
    | take next => apply ih
    | finish e | reject error taken => rfl

end Draft

/-- A list of tokens is read as an expression exactly if the automaton accepts the tokens with the
marker of the end behind them, and otherwise the reading fails with the error of the automaton. -/
theorem parseTokens_eq_automaton_run (tokens : List Token) :
  ((∃ e, parseTokens tokens = .ok e)
      ↔ Automaton.run (TokenList.finishOf tokens) {} tokens = .ok ())
    ∧ ∀ error, parseTokens tokens = .error error
      ↔ Automaton.run (TokenList.finishOf tokens) {} tokens = .error error
  := by
  have hrun : (parseTokens tokens).map (fun _ => ())
      = Automaton.run (TokenList.finishOf tokens) {} tokens :=
    Draft.map_result_goOn_eq_run {} tokens (TokenList.finishOf tokens)
  rw [← hrun]
  cases parseTokens tokens with
  | ok e => simp [Except.map]
  | error error => simp [Except.map]

/-- Precedence climbing ends on every list of tokens. It reads an expression exactly if the automaton
accepts the tokens with the marker of the end behind them, and otherwise it fails with the error of
the automaton. -/
theorem climbing_eq_automaton_run (tokens : List Token) :
  ∃ report, Goal.whole.climbing.report { supply := TokenList.ofTokens tokens } = some report
    ∧ report.result = parseTokens tokens
    ∧ ((∃ e, report.result = .ok e)
      ↔ Automaton.run (TokenList.finishOf tokens) {} tokens = .ok ())
    ∧ ∀ error, report.result = .error error
      ↔ Automaton.run (TokenList.finishOf tokens) {} tokens = .error error
  := by
  use Goal.whole.read { supply := TokenList.ofTokens tokens }
  constructor
  · apply Goal.report_climbing
  · exact ⟨rfl, parseTokens_eq_automaton_run tokens⟩

end Abacus
