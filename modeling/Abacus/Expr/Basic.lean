import Abacus.Expr.Operator
import Abacus.Token.Basic

/-!
# Expressions

An `Expr` is a tree of binary operators over literals. A literal carries the kind of token it
was made from and its text, which begins with a sign where the source had signs before it.
`Expr.render` writes an expression with every operator in parentheses.
-/

namespace Abacus

/-- A literal, or an operator with its two operands. -/
inductive Expr where
  | literal (kind : Token.Kind) (text : String)
  | binary (op : Operator) (left right : Expr)
  deriving DecidableEq, Repr

/-- The text of a literal behind signs. -/
def signedText (negative : Bool) (text : String) : String :=
  (if negative then "-" else "+") ++ text

/-- A leading sign taken off a text: whether it is the negative one, and the rest of the
text. A text without a sign counts as positive. -/
def splitSign : List Char → Bool × List Char
  | '-' :: rest => (true, rest)
  | '+' :: rest => (false, rest)
  | chars => (false, chars)

namespace Expr

/-- The expression written with parentheses around every operator and its operands. -/
def render : Expr → String
  | literal _ text => text
  | binary op left right =>
    "(" ++ left.render ++ " " ++ op.symbol ++ " " ++ right.render ++ ")"

end Expr

end Abacus
