import Abacus.Expr.Basic

/-!
# Events

The events of a calculation, in the order in which they happen: a token is read, an operator
is given its operands, a whole expression is evaluated.
-/

namespace Abacus

/-- An event of a calculation. -/
inductive Event where
  /-- A token other than a marker of the end was read. -/
  | token (token : Token)
  /-- An operator was given both operands. -/
  | built (expr : Expr)
  /-- A whole expression has the value. -/
  | evaluated (expr : Expr) (value : Float)

end Abacus
