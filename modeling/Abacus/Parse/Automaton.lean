import Abacus.Expr.Operator
import Abacus.Parse.Error

/-!
# The automaton of the grammar

Which lists of tokens make up an expression, and which token is the first that no expression
has, is decided from left to right by an automaton with one counter: its state is the place in
the expression and the number of open groups, and it builds nothing. `Automaton.verdict` is
its answer on a list of tokens.
-/

namespace Abacus.Automaton

/-- The place in an expression. -/
inductive Place where
  /-- An operand has to begin. -/
  | operand
  /-- Signs of an operand have been read. -/
  | signed
  /-- An operand is complete. -/
  | after
  deriving DecidableEq, Repr

/-- The place, and the number of open groups. -/
structure State where
  place : Place := .operand
  depth : Nat := 0
  deriving DecidableEq, Repr

/-- The state behind the token `t`, `none` if `t` ends an expression. -/
def step (s : State) (t : Token) : Except ParseError (Option State) :=
  match s.place with
  | .operand =>
    if t.sign?.isSome then .ok (some { s with place := .signed })
    else if t.isLiteral then .ok (some { s with place := .after })
    else if t.isOpening then .ok (some ⟨.operand, s.depth + 1⟩)
    else .error (.unexpected t .factor)
  | .signed =>
    if t.sign?.isSome then .ok (some s)
    else if t.isLiteral then .ok (some { s with place := .after })
    else .error (.unexpected t .literal)
  | .after =>
    if t.kind = .operator then
      if (Operator.ofSymbol? t.text).isSome then .ok (some { s with place := .operand })
      else .error (.unknownOperator t)
    else
      match s.depth with
      | depth + 1 =>
        if t.isClosing then .ok (some ⟨.after, depth⟩) else .error (.unexpected t .closing)
      | 0 => if t.isFinish then .ok none else .error (.trailingToken t)

/-- The answer on the tokens and on a marker of the end at `finish` behind them. -/
def run (finish : Nat) : State → List Token → Except ParseError Unit
  | s, [] =>
    match step s (.finish finish) with
    | .error e => .error e
    | .ok _ => .ok ()
  | s, t :: tokens =>
    match step s t with
    | .error e => .error e
    | .ok none => .ok ()
    | .ok (some s) => run finish s tokens

end Abacus.Automaton
