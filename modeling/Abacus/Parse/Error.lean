import Abacus.Input.Delivery
import Abacus.Token.Basic

/-!
# Parse errors

The reasons for which no expression can be read. Each but a failed read is caused by a token,
which the error names, at a position in the source. `ParseError.message` is the wording.
-/

namespace Abacus

/-- What a token is refused in place of. -/
inductive Expected where
  /-- An operand. -/
  | factor
  /-- The literal that a run of signs applies to. -/
  | literal
  /-- The end of a group. -/
  | closing
  deriving DecidableEq, Repr

/-- The wording of what was expected. -/
def Expected.describe : Expected → String
  | factor => "a factor"
  | literal => "a number or constant"
  | closing => "closing parenthesis"

/-- The reason for which no expression could be read. -/
inductive ParseError where
  /-- The source failed. -/
  | readFailure (fault : Fault)
  /-- An operator that the table of operators does not know. -/
  | unknownOperator (found : Token)
  | unexpectedToken (found : Token) (expected : Expected)
  /-- The source ended, at `position`. -/
  | unexpectedEnd (position : Nat) (expected : Expected)
  /-- A token after a whole expression. -/
  | trailingToken (found : Token)
  deriving DecidableEq, Repr

namespace ParseError

/-- The error of the token `found`, which may be a marker of the end. -/
def unexpected (found : Token) (expected : Expected) : ParseError :=
  if found.isFinish then .unexpectedEnd found.position expected
  else .unexpectedToken found expected

/-- The position of the token that caused the error. A failed read has none. -/
def position? : ParseError → Option Nat
  | readFailure _ => none
  | unknownOperator found => some found.position
  | unexpectedToken found _ => some found.position
  | unexpectedEnd position _ => some position
  | trailingToken found => some found.position

private def messageAt (position : Nat) (text : String) : String :=
  "Error at position " ++ toString position ++ ": " ++ text ++ "."

/-- The wording of the error. -/
def message : ParseError → String
  | readFailure fault => "Read error: " ++ fault.message
  | unknownOperator found =>
    messageAt found.position ("Unknown operator '" ++ found.text ++ "'")
  | unexpectedToken found expected =>
    messageAt found.position
      ("Unexpected " ++ found.describe ++ ", expected " ++ expected.describe)
  | unexpectedEnd position expected =>
    messageAt position ("Unexpected end of input, expected " ++ expected.describe)
  | trailingToken found =>
    messageAt found.position ("Unexpected trailing " ++ found.describe)

end ParseError

end Abacus
