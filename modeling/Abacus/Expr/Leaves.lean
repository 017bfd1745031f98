import Abacus.Expr.Basic

/-!
# Leaves and operators of an expression

`Expr.leaves` lists the literals of an expression from left to right, `Expr.operations` its
applied operators in the order in which their operands are complete, and `Expr.graft` puts an
expression in the place of one literal.
-/

namespace Abacus.Expr

/-- The literals, from left to right. -/
def leaves : Expr → List (Token.Kind × String)
  | literal kind text => [(kind, text)]
  | binary _ left right => left.leaves ++ right.leaves

/-- The applied operators: those of the left operand, those of the right operand, the operator
itself. -/
def operations : Expr → List Expr
  | literal _ _ => []
  | e@(binary _ left right) => left.operations ++ right.operations ++ [e]

/-- The expression with `a` in the place of literal number `i`, counted from the left. -/
def graft : Expr → Nat → Expr → Expr
  | e@(literal _ _), i, a => if i = 0 then a else e
  | binary op left right, i, a =>
    if i < left.leaves.length then binary op (left.graft i a) right
    else binary op left (right.graft (i - left.leaves.length) a)

end Abacus.Expr
