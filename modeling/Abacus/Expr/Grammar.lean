import Abacus.Expr.Basic

/-!
# The grammar of expressions

`Derives level tokens e` says that the tokens make up the expression `e` at a level of the
grammar: sums of products of powers of factors. Sums and products group to the left and powers
to the right; parentheses leave no trace in the expression, and the signs before a literal
become one sign of its text.
-/

namespace Abacus

/-- The token is the operator `op`. -/
def Token.isOperator (op : Operator) (t : Token) : Prop :=
  t.kind = .operator ∧ t.text = op.symbol

/-- An odd number of the tokens are negative signs. -/
def negativeSigns (signs : List Token) : Bool :=
  signs.countP (fun t => t.sign? = some true) % 2 = 1

/-- The levels of the grammar, from the loosest to the tightest. -/
inductive Level where
  | sum
  | product
  | power
  | factor
  deriving DecidableEq, Repr

/-- The tokens make up the expression at the level. -/
inductive Derives : Level → List Token → Expr → Prop
  | literal {t : Token} (ht : t.isLiteral) : Derives .factor [t] (.literal t.kind t.text)
  | signed {signs : List Token} {t : Token} (hne : signs ≠ [])
      (hsigns : ∀ s ∈ signs, s.sign?.isSome) (ht : t.isLiteral) :
      Derives .factor (signs ++ [t])
        (.literal t.kind (signedText (negativeSigns signs) t.text))
  | group {opening closing : Token} {tokens : List Token} {e : Expr}
      (hopening : opening.isOpening) (h : Derives .sum tokens e) (hclosing : closing.isClosing) :
      Derives .factor (opening :: tokens ++ [closing]) e
  | ofFactor {tokens : List Token} {e : Expr} (h : Derives .factor tokens e) :
      Derives .power tokens e
  | power {left right : List Token} {t : Token} {x y : Expr} (hx : Derives .factor left x)
      (ht : t.isOperator .pow) (hy : Derives .power right y) :
      Derives .power (left ++ t :: right) (.binary .pow x y)
  | ofPower {tokens : List Token} {e : Expr} (h : Derives .power tokens e) :
      Derives .product tokens e
  | product {op : Operator} {left right : List Token} {t : Token} {x y : Expr}
      (hop : op = .mul ∨ op = .div) (hx : Derives .product left x) (ht : t.isOperator op)
      (hy : Derives .power right y) :
      Derives .product (left ++ t :: right) (.binary op x y)
  | ofProduct {tokens : List Token} {e : Expr} (h : Derives .product tokens e) :
      Derives .sum tokens e
  | sum {op : Operator} {left right : List Token} {t : Token} {x y : Expr}
      (hop : op = .add ∨ op = .sub) (hx : Derives .sum left x) (ht : t.isOperator op)
      (hy : Derives .product right y) :
      Derives .sum (left ++ t :: right) (.binary op x y)

end Abacus
