import Abacus.Expr.Basic
import Abacus.Value

/-!
# The value of an expression

`Expr.valueM` gives an expression its value. The constants come from a look-up that may have
effects, such as keeping a record of the names asked for; `Expr.value` takes them from a plain
function, and `Expr.valueAndNames` returns the names asked for as well. Operands are evaluated
from left to right, and the first one that has no value ends the evaluation.
-/

namespace Abacus

/-- The reason for which an expression has no value. -/
inductive EvalError where
  /-- The text of a number is no numeral, or too large. -/
  | invalidNumber (text : String)
  /-- The look-up has no constant of that name. -/
  | unknownConstant (name : String)
  /-- The literal was made from a token that denotes nothing. -/
  | meaninglessLiteral (kind : Token.Kind)
  deriving DecidableEq, Repr

/-- The wording of the error. -/
def EvalError.message : EvalError → String
  | invalidNumber text => "Invalid number '" ++ text ++ "'."
  | unknownConstant name => "Unknown constant '" ++ name ++ "'."
  | meaninglessLiteral kind => "Unknown node kind: " ++ kind.describe ++ " literal."

/-- The values of the constants. -/
abbrev Constants : Type := String → Option Float

namespace Expr

/-- The value of a literal. A constant behind a minus sign has the opposite value. -/
def literalValueM {m : Type → Type} [Monad m] (lookup : String → m (Option Float))
    (kind : Token.Kind) (text : String) : m (Except EvalError Float) :=
  match kind with
  | .number =>
    match numeral? text with
    | some value => pure (.ok value)
    | none => pure (.error (.invalidNumber text))
  | .constant => do
    let (negative, chars) := splitSign text.toList
    let name := String.ofList chars
    match ← lookup name with
    | some value => pure (.ok (if negative then -value else value))
    | none => pure (.error (.unknownConstant name))
  | kind => pure (.error (.meaninglessLiteral kind))

/-- The value of an expression under a look-up with effects. -/
def valueM {m : Type → Type} [Monad m] (lookup : String → m (Option Float)) :
    Expr → m (Except EvalError Float)
  | literal kind text => literalValueM lookup kind text
  | binary op left right => do
    match ← left.valueM lookup with
    | .error e => pure (.error e)
    | .ok x =>
      match ← right.valueM lookup with
      | .error e => pure (.error e)
      | .ok y => pure (.ok (op.compute x y))

/-- The value of an expression. -/
def value (constants : Constants) (e : Expr) : Except EvalError Float :=
  Id.run (e.valueM fun name => pure (constants name))

/-- The look-up that adds each name asked for to the end of a list. -/
def recordingLookup (constants : Constants) (name : String) :
    StateM (List String) (Option Float) := do
  modify (· ++ [name])
  pure (constants name)

/-- The value of an expression, and the names of the constants asked for, in order. -/
def valueAndNames (constants : Constants) (e : Expr) : Except EvalError Float × List String :=
  (e.valueM (recordingLookup constants)).run []

end Expr

end Abacus
