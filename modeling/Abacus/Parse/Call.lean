import Abacus.Parse.Reading

/-!
# Calls on a supply of tokens

A client of a supply of tokens may look at tokens, take them, and read operands and
expressions, in any order. `Buffered.answers` makes a list of such calls one after the other,
each on the tokens that the calls before it have left, be they successful or not.
-/

namespace Abacus

/-- A call on a supply. -/
inductive Call where
  | look
  | take
  | read (goal : Goal)
  deriving DecidableEq, Repr

/-- The answer to a call. -/
inductive Answer where
  | token (token : Token)
  | expr (expr : Expr)
  | error (error : ParseError)
  deriving DecidableEq, Repr

variable {σ : Type}

/-- The answer to a call for a token, and the tokens left. -/
def Pulled.toAnswer : Pulled σ Token → Answer × σ
  | .ok t s => (.token t, s)
  | .error e s => (.error e, s)

/-- The answer to a call for an expression, and the tokens left. -/
def Report.toAnswer (r : Report σ) : Answer × Buffered σ :=
  match r.result with
  | .ok e => (.expr e, r.rest)
  | .error e => (.error e, r.rest)

namespace Buffered

/-- The answer to one call, and the tokens left. -/
def answer [FiniteSupply σ] (l : Buffered σ) : Call → Answer × Buffered σ
  | .look => l.look.toAnswer
  | .take => l.take.toAnswer
  | .read goal => (goal.read l).toAnswer

/-- The answers to calls made in order, and the tokens left. -/
def answers [FiniteSupply σ] : List Call → Buffered σ → List Answer × Buffered σ
  | [], l => ([], l)
  | call :: calls, l =>
    let (first, l) := l.answer call
    let (rest, l) := answers calls l
    (first :: rest, l)

end Buffered

end Abacus
