/-!
# Binary operators

The binary operators with their symbols and with the two facts that decide how they group:
the precedence, and whether equal operators group to the right. `Operator.rightMinimum` is
the least precedence of an operator that may be applied inside the right operand.
-/

namespace Abacus

/-- The binary operators. -/
inductive Operator where
  | add
  | sub
  | mul
  | div
  | pow
  deriving DecidableEq, Repr

namespace Operator

/-- The symbol of an operator. -/
def symbol : Operator → String
  | add => "+"
  | sub => "-"
  | mul => "*"
  | div => "/"
  | pow => "^"

/-- The operator with the given symbol. -/
def ofSymbol? (symbol : String) : Option Operator :=
  if symbol = "+" then some add
  else if symbol = "-" then some sub
  else if symbol = "*" then some mul
  else if symbol = "/" then some div
  else if symbol = "^" then some pow
  else none

/-- How tightly an operator binds its operands. -/
def precedence : Operator → Nat
  | add => 1
  | sub => 1
  | mul => 2
  | div => 2
  | pow => 3

/-- In `a ∘ b ∘ c` the right operand of the first operator is `b ∘ c`. -/
def isRightAssociative : Operator → Bool
  | pow => true
  | _ => false

/-- The least precedence of an operator applied inside the right operand without
parentheses: that of the operator itself if it groups to the right, else one more. -/
def rightMinimum (op : Operator) : Nat :=
  if op.isRightAssociative then op.precedence else op.precedence + 1

/-- Symbols name their operators, and nothing else names one. -/
theorem ofSymbol?_eq_some_iff {s : String} {op : Operator} :
  ofSymbol? s = some op ↔ s = op.symbol
  := by
  constructor
  · intro h
    unfold ofSymbol? at h
    repeat' split at h
    all_goals simp_all [symbol]
    all_goals (subst h; rfl)
  · rintro rfl
    cases op <;> decide

theorem precedence_pos (op : Operator) :
  0 < op.precedence
  := by
  cases op <;> decide

theorem precedence_le_rightMinimum (op : Operator) :
  op.precedence ≤ op.rightMinimum
  := by
  cases op <;> decide

end Operator

end Abacus
