import Abacus.Binary64.Shortest
import Abacus.Expr.Basic

/-!
# Values

The values of expressions are the binary64 numbers, `Float`. `numeral?` reads a decimal
numeral with at most one sign, rounded to the nearest value. `ValueStyle.write` writes a value
with the fewest digits that read back to it, in plain notation; a style fixes the spelling of
the values that have no digits. `Operator.compute` is the arithmetic of the operators.
-/

namespace Abacus

/-! ### Reading numerals -/

/-- The weight of the sign bit, above the sixty-three bits of the code. -/
def signUnit : Nat := Nat.pow 2 63

/-- The value with the given sign and the given code of its magnitude. -/
def valueOfCode (negative : Bool) (code : Nat) : Float :=
  Float.ofBits (UInt64.ofNat (code + if negative then signUnit else 0))

/-- The value nearest to a numeral: at most one sign, then digits with at most one dot among
them. A numeral that is too large has no value. -/
def numeral? (text : String) : Option Float :=
  let (negative, chars) := splitSign text.toList
  ((Decimal.ofChars? chars).bind Binary64.ofDecimal?).map (valueOfCode negative)

/-! ### Writing values -/

/-- The spelling of the values that have no digits. -/
structure ValueStyle where
  positiveInfinity : String
  negativeInfinity : String
  notANumber : String

/-- The style of results: an infinity carries its sign. -/
def resultStyle : ValueStyle := ⟨"+Inf", "-Inf", "NaN"⟩

/-- The style of the log. -/
def logStyle : ValueStyle := ⟨"inf", "-inf", "NaN"⟩

/-- The value written in a style: the shortest decimal that rounds to it, in plain notation,
behind a minus sign if its sign bit is set. -/
def ValueStyle.write (style : ValueStyle) (value : Float) : String :=
  let bits := value.toBits.toNat
  let negative := signUnit ≤ bits
  let code := bits % signUnit
  if Binary64.infinityCode < code then style.notANumber
  else if code = Binary64.infinityCode then
    if negative then style.negativeInfinity else style.positiveInfinity
  else (if negative then "-" else "") ++ (Binary64.shortest code).write

/-- The text of a result. -/
def resultText (value : Float) : String :=
  resultStyle.write value

/-! ### Arithmetic -/

/-- The value of an operator at two values. Nothing fails: a division by zero gives an
infinity or no number, and a power outside its domain gives no number. -/
def Operator.compute : Operator → Float → Float → Float
  | add, x, y => x + y
  | sub, x, y => x - y
  | mul, x, y => x * y
  | div, x, y => x / y
  | pow, x, y => x ^ y

end Abacus
