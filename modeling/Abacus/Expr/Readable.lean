import Abacus.Expr.Basic
import Abacus.Token.Reading

/-!
# Readable expressions

An expression is readable if each of its literals has a text that a source can hold for a
literal of its kind: behind at most one sign, a number is a run of digits and dots and a
constant is a name.
-/

namespace Abacus

/-- The characters make up a number token. -/
def isNumberText (chars : List Char) : Bool :=
  chars ≠ [] && chars.all isNumberChar

/-- The characters make up a constant token. -/
def isNameText : List Char → Bool
  | [] => false
  | c :: rest => isNameStart c && rest.all isNameChar

/-- The text behind its sign, if it has one, makes up a token of the kind of the literal. -/
def isReadableLiteral (kind : Token.Kind) (text : String) : Bool :=
  let chars := (splitSign text.toList).2
  match kind with
  | .number => isNumberText chars
  | .constant => isNameText chars
  | _ => false

/-- Every literal can be read. -/
def Expr.isReadable : Expr → Bool
  | literal kind text => isReadableLiteral kind text
  | binary _ left right => left.isReadable && right.isReadable

end Abacus
