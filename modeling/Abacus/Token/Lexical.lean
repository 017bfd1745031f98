import Abacus.Token.Basic
import Abacus.Unicode.Numeric

/-!
# The characters of tokens

The lexical rules: which characters are skipped between tokens, which kind of token a
character begins, `Token.kindOfFirst`, and which characters go on with a token of each kind,
`Token.Kind.continues?`.
-/

namespace Abacus

open Unicode

/-- The characters skipped between tokens: space, tab and line feed. -/
def isBlank (c : Char) : Bool :=
  c == ' ' || c == '\t' || c == '\n'

/-- The characters of a number: the ASCII digits and the dot. -/
def isNumberChar (c : Char) : Bool :=
  c.isDigit || c == '.'

/-- The operators. -/
def isOperatorChar (c : Char) : Bool :=
  c == '+' || c == '-' || c == '*' || c == '/' || c == '^'

/-- The parentheses. -/
def isParenthesis (c : Char) : Bool :=
  c == '(' || c == ')'

/-- The characters that begin the name of a constant: alphabetic ones and the underscore. -/
def isNameStart (c : Char) : Bool :=
  isAlphabetic c || c == '_'

/-- The characters that continue the name of a constant: alphanumeric ones and the
underscore. -/
def isNameChar (c : Char) : Bool :=
  isAlphanumeric c || c == '_'

namespace Token

/-- The kind of a token that begins with `c`. -/
def kindOfFirst (c : Char) : Kind :=
  if isNumberChar c then .number
  else if isOperatorChar c then .operator
  else if isParenthesis c then .parenthesis
  else if isNameStart c then .constant
  else .unknown

/-- The characters that a token of the kind may go on with after its first, `none` where it
consists of one character. -/
def Kind.continues? : Kind → Option (Char → Bool)
  | number => some isNumberChar
  | constant => some isNameChar
  | _ => none

/-- The token of the kind that consists of the characters, read at `position`. An unknown
token does not show its character. -/
def ofChars (kind : Kind) (chars : List Char) (position : Nat) : Token :=
  ⟨kind, if kind = .unknown then "" else String.ofList chars, position⟩

theorem kindOfFirst_ne_finish (c : Char) :
  kindOfFirst c ≠ .finish
  := by
  unfold kindOfFirst
  repeat' split
  all_goals nofun

end Token

end Abacus
