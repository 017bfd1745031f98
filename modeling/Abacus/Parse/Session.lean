import Abacus.Parse.Call
import Abacus.Parse.Consumption

/-!
# Sessions with a reader

A client of a reader of tokens may ask for its position, for the next token and for all tokens up to
the next end, in any order. Then it may use what is left as a supply that it looks ahead in, and make
calls on that. `sessionAnswers` are the answers to all of these calls.
-/

namespace Abacus

/-- The values of `ρ` give tokens one by one or up to the next end, and have a position. -/
class TokenReader (ρ : Type) extends FiniteSupply ρ where
  position : ρ → Nat
  /-- The tokens up to the next marker of the end, without the marker. -/
  pullAll : ρ → Pulled ρ (List Token)

instance {ρ : Type} [CharSource ρ] : TokenReader ρ where
  position := CharSource.position
  pullAll r := (CharSource.readTokens r).toPulled

/-- A call on a reader. -/
inductive ReaderCall where
  | position
  | token
  | tokens
  deriving DecidableEq, Repr

/-- The answer to a call on a reader. -/
inductive ReaderAnswer where
  | position (position : Nat)
  | token (result : Except ParseError Token)
  | tokens (result : Except ParseError (List Token))

variable {ρ : Type} [TokenReader ρ]

/-- The answer to one call, and the reader behind it. -/
def ReaderCall.answer (r : ρ) : ReaderCall → ReaderAnswer × ρ
  | .position => (.position (TokenReader.position r), r)
  | .token => (TokenSupply.pull r).split.map .token id
  | .tokens => (TokenReader.pullAll r).split.map .tokens id

/-- The answers to calls made in order, and the reader behind them. -/
def readerAnswers : List ReaderCall → ρ → List ReaderAnswer × ρ
  | [], r => ([], r)
  | call :: calls, r =>
    let (first, r) := call.answer r
    let (rest, r) := readerAnswers calls r
    (first :: rest, r)

/-- The answers to calls made on a reader, and then to calls made with a look ahead in what these have
left. -/
def sessionAnswers (readerCalls : List ReaderCall) (calls : List Call) (r : ρ) :
    List ReaderAnswer × List Answer :=
  let (first, r) := readerAnswers readerCalls r
  (first, (Buffered.answers calls { supply := r }).1)

end Abacus
