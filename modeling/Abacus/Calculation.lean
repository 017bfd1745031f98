import Abacus.Expr.Evaluation
import Abacus.Parse.Reading

/-!
# Calculations

A calculation reads an expression from a text and evaluates it. `Calculation.value` gives the
value, `Calculation.valueAndNames` also the names of the constants asked for, and
`Calculation.valueAndLog` also the events, whose wording is `Event.message`.
-/

namespace Abacus

namespace Calculation

/-- The reason for which a text has no value. -/
inductive Error where
  | parse (error : ParseError)
  | eval (error : EvalError)
  deriving DecidableEq, Repr

/-- The outcome of an evaluation, as that of a calculation. -/
def ofEval : Except EvalError Float → Except Error Float :=
  Except.mapError .eval

/-- The value of a text. -/
def value (constants : Constants) (text : String) : Except Error Float :=
  match parseText text with
  | .error e => .error (.parse e)
  | .ok e => ofEval (e.value constants)

/-- The value of a text, and the names of the constants asked for, in order. -/
def valueAndNames (constants : Constants) (text : String) : Except Error Float × List String :=
  match parseText text with
  | .error e => (.error (.parse e), [])
  | .ok e =>
    let (outcome, names) := e.valueAndNames constants
    (ofEval outcome, names)

/-- The value of a text, and the events of the calculation, in order. -/
def valueAndLog (constants : Constants) (text : String) : Except Error Float × List Event :=
  let report := Goal.whole.read { supply := CharReader.ofText text }
  match report.result with
  | .error e => (.error (.parse e), report.log)
  | .ok e =>
    match e.value constants with
    | .error error => (.error (.eval error), report.log)
    | .ok value => (.ok value, report.log ++ [.evaluated e value])

end Calculation

/-- The wording of an event. -/
def Event.message : Event → String
  | token t => "scanned " ++ t.describe ++ " at " ++ toString t.position
  | built expr => "built " ++ expr.render
  | evaluated expr value => expr.render ++ " evaluated to " ++ logStyle.write value

end Abacus
