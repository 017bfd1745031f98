import Abacus.Parse.Reading

/-!
# Precedence climbing

Readings by recursion. A call of the routine `expression` reads a factor and then climbs: it takes
the operators behind the factor for as long as their precedence is at least its minimum, and reads
the right operand of each by a call of its own, with the minimum `Operator.rightMinimum`. A group
is read with the minimum `leastPrecedence`, whatever the minimum of the call around it.

Calls may be nested without end, so `Routine.run` is the least solution of its equations, and a
reading that never ends gives `none`. `Draft.read` has no calls: a draft keeps in its lists what
the calls have yet to do.
-/

namespace Abacus

variable {σ : Type}

/-- A reading that passes on the tokens left and the events so far, and gives a value or an
error. -/
abbrev ReadM (σ α : Type) : Type :=
  ExceptT ParseError (StateT (Buffered σ × List Event) Option) α

namespace ReadM

/-- The value or the error, the tokens left and the events, if the reading ends. -/
def runOn {α : Type} (p : ReadM σ α) (l : Buffered σ) (log : List Event) :
    Option (Except ParseError α × Buffered σ × List Event) :=
  p.run.run (l, log)

/-- The report of the reading, if it ends. -/
def report (p : ReadM σ Expr) (l : Buffered σ) : Option (Report σ) :=
  (p.runOn l []).map fun (result, rest, log) => ⟨result, rest, log⟩

/-- The next token, which is left. -/
def look [TokenSupply σ] : ReadM σ Token := do
  let (l, log) ← get
  match l.look with
  | .ok t l' =>
    set (l', log ++ l.lookEvents t)
    return t
  | .error e l' =>
    set (l', log)
    throw e

/-- The next token, which is taken. -/
def take [TokenSupply σ] : ReadM σ Token := do
  let t ← look
  modify fun (l, log) => (l.dropFront, log)
  return t

/-- The operator with its operands. -/
def build (op : Operator) (left right : Expr) : ReadM σ Expr := do
  modify fun (l, log) => (l, log ++ [.built (.binary op left right)])
  return .binary op left right

end ReadM

open ReadM

/-- The least precedence of an operator. A call with this minimum takes every operator. -/
def leastPrecedence : Nat := 1

variable [TokenSupply σ]

/-- The end of a group around `e`, which leaves no trace in the expression. -/
def closeGroup (e : Expr) : ReadM σ Expr := do
  let t ← take
  if t.isClosing then return e else throw (.unexpected t .closing)

/-- The routines of precedence climbing. -/
inductive Routine where
  /-- A factor, and the operators of at least the precedence `minimum` behind it. -/
  | expression (minimum : Nat)
  /-- The operators of at least the precedence `minimum` behind the operand `left`. What stops
  them is left. -/
  | climb (minimum : Nat) (left : Expr)
  /-- One operand. -/
  | factor
  /-- The literal behind signs, which amount to a negative one or not so far. -/
  | signed (negative : Bool)
  deriving DecidableEq, Repr

/-- A call of a routine. -/
def Routine.run (routine : Routine) : ReadM σ Expr :=
  match routine with
  | .expression minimum => do
    let left ← Routine.factor |>.run
    Routine.climb minimum left |>.run
  | .climb minimum left => do
    let t ← look
    if t.kind = .operator then
      match Operator.ofSymbol? t.text with
      | none => throw (.unknownOperator t)
      | some op =>
        if op.precedence < minimum then return left
        else
          let _ ← take
          let right ← Routine.expression op.rightMinimum |>.run
          let whole ← build op left right
          Routine.climb minimum whole |>.run
    else return left
  | .factor => do
    let t ← take
    match t.sign? with
    | some negative => Routine.signed negative |>.run
    | none =>
      if t.isLiteral then return .literal t.kind t.text
      else if t.isOpening then
        let e ← Routine.expression leastPrecedence |>.run
        closeGroup e
      else throw (.unexpected t .factor)
  | .signed negative => do
    let t ← take
    match t.sign? with
    | some more => Routine.signed (negative ^^ more) |>.run
    | none =>
      if t.isLiteral then return .literal t.kind (signedText negative t.text)
      else throw (.unexpected t .literal)
partial_fixpoint

/-- The end of the source behind `e`, which is left. -/
def endSource (e : Expr) : ReadM σ Expr := do
  let t ← look
  if t.isFinish then return e else throw (.trailingToken t)

/-- The reading for the goal. -/
def Goal.climbing : Goal → ReadM σ Expr
  | .factor => Routine.factor.run
  | .expression minimum => (Routine.expression minimum).run
  | .whole => do
    let e ← (Routine.expression leastPrecedence).run
    endSource e

end Abacus
