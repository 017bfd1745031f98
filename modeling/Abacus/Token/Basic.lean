/-!
# Tokens

A `Token` is a unit of the source: its kind, the text it was made from, and the offset, in
characters, at which it begins. `describe` is the wording of a token in messages.
-/

namespace Abacus

/-- The lexical category of a token. -/
inductive Token.Kind where
  /-- A run of digits and dots. -/
  | number
  | operator
  | parenthesis
  /-- The name of a constant. -/
  | constant
  /-- The marker of the end of the source. -/
  | finish
  /-- A character that begins no other token. -/
  | unknown
  deriving DecidableEq, Repr

/-- The wording of a kind in messages. -/
def Token.Kind.describe : Token.Kind → String
  | number => "number"
  | operator => "operator"
  | parenthesis => "parenthesis"
  | constant => "constant"
  | finish => "end of input"
  | unknown => "unknown"

/-- A unit of the source. The markers of the end and the unknown tokens that are read from a
source have an empty text. -/
structure Token where
  kind : Token.Kind
  text : String
  position : Nat
  deriving DecidableEq, Repr

namespace Token

/-- The marker of the end at `position`. -/
def finish (position : Nat) : Token :=
  ⟨.finish, "", position⟩

/-- The wording of a token in messages: its kind, with the text in quotes for the kinds that
carry one. -/
def describe (t : Token) : String :=
  match t.kind with
  | .finish => t.kind.describe ++ " token"
  | .unknown => t.kind.describe ++ " token"
  | _ => t.kind.describe ++ " \"" ++ t.text ++ "\""

/-- The token is a marker of the end. -/
def isFinish (t : Token) : Bool :=
  t.kind = .finish

/-- The token is a literal by itself: a number or a constant. -/
def isLiteral (t : Token) : Bool :=
  t.kind = .number || t.kind = .constant

/-- The token opens a group. -/
def isOpening (t : Token) : Bool :=
  t.kind = .parenthesis && t.text = "("

/-- The token closes a group. -/
def isClosing (t : Token) : Bool :=
  t.kind = .parenthesis && t.text = ")"

/-- For a sign, whether it is the negative one. -/
def sign? (t : Token) : Option Bool :=
  if t.kind = .operator then
    if t.text = "-" then some true else if t.text = "+" then some false else none
  else none

/-- The token moved on by `n` characters. -/
def shift (n : Nat) (t : Token) : Token :=
  { t with position := n + t.position }

end Token

end Abacus
