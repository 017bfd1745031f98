import Abacus.Expr.Basic
import Abacus.Parse.Error

/-!
# Expressions under construction

A `Draft` is what the tokens read so far amount to: the operators that wait for their right
operands, innermost first, in each group that is open, and the phase of the operand that is
next. `Draft.step` extends a draft by a token. A token after an operand first settles the
waiting operators that bind the operand more tightly than the token does, and so gives each
of them its right operand; an operator then waits in turn. What ends the expression depends
on the `Goal` that is pursued. The nested calls that a draft does without are those of precedence
climbing, in `Abacus.Parse.Climbing`.
-/

namespace Abacus

/-- An operator with its left operand, waiting for the right one. -/
structure Pending where
  op : Operator
  left : Expr
  deriving DecidableEq, Repr

/-- The state of the operand that is next. -/
inductive Phase where
  /-- It has not begun. -/
  | operand
  /-- It has begun with signs, which amount to a negative one or not. -/
  | signed (negative : Bool)
  /-- It is complete, up to operators that bind it more tightly than those waiting. -/
  | after (operand : Expr)
  deriving DecidableEq, Repr

/-- An expression under construction. -/
structure Draft where
  phase : Phase := .operand
  /-- The operators that wait inside the innermost open group. -/
  pending : List Pending := []
  /-- The operators that wait around each open group, innermost group first. -/
  groups : List (List Pending) := []
  deriving DecidableEq, Repr

/-- What is to be read. -/
inductive Goal where
  /-- One operand. -/
  | factor
  /-- An expression whose operators outside parentheses have at least the precedence
  `minimum`, as long as possible. -/
  | expression (minimum : Nat)
  /-- An expression that takes up the whole source. -/
  | whole
  deriving DecidableEq, Repr

/-- What a token does to a draft. -/
inductive Move where
  /-- The token is taken, and the draft goes on. -/
  | take (next : Draft)
  /-- The expression is complete and ends before the token. -/
  | finish (result : Expr)
  /-- The token is an error; it is taken or left. -/
  | reject (error : ParseError) (taken : Bool)
  deriving DecidableEq, Repr

/-- What a token does to a draft, after the operators that it settles. -/
structure Step where
  /-- The settled operators with their operands, in the order in which they are settled. -/
  built : List Expr := []
  move : Move
  deriving DecidableEq, Repr

/-- The waiting operators that remain when those whose right operand ends before an operator
of precedence `bound` have been settled. -/
structure Settled where
  built : List Expr
  operand : Expr
  pending : List Pending
  deriving DecidableEq, Repr

/-- The operand becomes the right operand of the innermost waiting operator, and so on, as
long as an operator of precedence `bound` may not be applied inside that right operand. With
`bound = 0` no operator is left waiting. -/
def settle (bound : Nat) (operand : Expr) : List Pending → Settled
  | [] => ⟨[], operand, []⟩
  | p :: pending =>
    if bound < p.op.rightMinimum then
      let whole := .binary p.op p.left operand
      let rest := settle bound whole pending
      { rest with built := whole :: rest.built }
    else ⟨[], operand, p :: pending⟩

namespace Draft

/-- The expression read, where the goal is met without another token. -/
def result? (goal : Goal) : Draft → Option Expr
  | ⟨.after e, [], []⟩ => if goal = .factor then some e else none
  | _ => none

/-- A token where an operand has to begin. -/
def stepOperand (d : Draft) (t : Token) : Move :=
  match t.sign? with
  | some negative => .take { d with phase := .signed negative }
  | none =>
    if t.isLiteral then .take { d with phase := .after (.literal t.kind t.text) }
    else if t.isOpening then .take ⟨.operand, [], d.pending :: d.groups⟩
    else .reject (.unexpected t .factor) true

/-- A token behind the signs of an operand. An even number of negative signs is a positive
one. -/
def stepSigned (negative : Bool) (d : Draft) (t : Token) : Move :=
  match t.sign? with
  | some more => .take { d with phase := .signed (negative ^^ more) }
  | none =>
    if t.isLiteral then
      .take { d with phase := .after (.literal t.kind (signedText negative t.text)) }
    else .reject (.unexpected t .literal) true

/-- An operator behind the operand `e`. -/
def stepOperator (goal : Goal) (e : Expr) (d : Draft) (op : Operator) : Step :=
  let settled := settle op.precedence e d.pending
  let next : Draft :=
    ⟨.operand, ⟨op, settled.operand⟩ :: settled.pending, d.groups⟩
  ⟨settled.built,
    match goal, settled.pending, d.groups with
    | .expression minimum, [], [] =>
      if op.precedence < minimum then .finish settled.operand else .take next
    | _, _, _ => .take next⟩

/-- A token that is no operator behind the operand `e`: it ends a group or the
expression. -/
def stepEnd (goal : Goal) (e : Expr) (d : Draft) (t : Token) : Step :=
  let settled := settle 0 e d.pending
  ⟨settled.built,
    match d.groups with
    | pending :: groups =>
      if t.isClosing then .take ⟨.after settled.operand, pending, groups⟩
      else .reject (.unexpected t .closing) true
    | [] =>
      if goal = .whole ∧ ¬ t.isFinish then .reject (.trailingToken t) false
      else .finish settled.operand⟩

/-- A token behind the operand `e`. -/
def stepAfter (goal : Goal) (e : Expr) (d : Draft) (t : Token) : Step :=
  if t.kind = .operator then
    match Operator.ofSymbol? t.text with
    | none => { move := .reject (.unknownOperator t) false }
    | some op => d.stepOperator goal e op
  else d.stepEnd goal e t

/-- The draft extended by a token. -/
def step (goal : Goal) (d : Draft) (t : Token) : Step :=
  match d.phase with
  | .operand => { move := d.stepOperand t }
  | .signed negative => { move := d.stepSigned negative t }
  | .after e => d.stepAfter goal e t

end Draft

end Abacus
