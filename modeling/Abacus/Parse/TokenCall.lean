import Abacus.Parse.Call
import Abacus.Parse.Consumption

/-!
# Calls for the next token

The next token of a buffered supply can be looked at or taken. `Buffered.tokenAnswers` makes a list of
such calls one after the other, each on what the calls before it have left, be they successful or not.
A token that is looked at stays in front, so it is not handed over for good; a token that is taken is,
and so is an error: `handedOver`.
-/

namespace Abacus

/-- A call for the next token. -/
inductive TokenCall where
  | look
  | take
  deriving DecidableEq, Repr

namespace TokenCall

/-- The call as one of all calls. -/
def toCall : TokenCall → Call
  | look => .look
  | take => .take

/-- What the call gives, and what it leaves. -/
def answer {σ : Type} [TokenSupply σ] (l : Buffered σ) :
    TokenCall → Except ParseError Token × Buffered σ
  | look => l.look.split
  | take => l.take.split

/-- The call hands over what it gives: no later call gives it again. -/
def handsOver : TokenCall → Except ParseError Token → Bool
  | look, .ok _ => false
  | look, .error _ => true
  | take, _ => true

end TokenCall

/-- What calls made in order give, and what they leave. -/
def Buffered.tokenAnswers {σ : Type} [TokenSupply σ] :
    List TokenCall → Buffered σ → List (Except ParseError Token) × Buffered σ
  | [], l => ([], l)
  | call :: calls, l =>
    let (first, l) := call.answer l
    let (rest, l) := tokenAnswers calls l
    (first :: rest, l)

/-- What the calls hand over, where the answers are what they give: the tokens taken and the errors,
in order. -/
def handedOver : List TokenCall → List (Except ParseError Token) → List (Except ParseError Token)
  | call :: calls, answer :: answers =>
    if call.handsOver answer then answer :: handedOver calls answers else handedOver calls answers
  | _, _ => []

/-- What a call for a token gives as an answer. -/
def Answer.ofToken : Except ParseError Token → Answer
  | .ok t => .token t
  | .error e => .error e

end Abacus
