import Abacus.Parse.Reading

/-!
# The tokens that a reading takes

`Buffered.takes` takes one token after the other and shows what there is to be taken.
`Draft.consumed` are the tokens that a reading takes from the front of a supply, and `Goal.Ends`
says of a reading, also of a supply that never comes to a marker of the end, that it takes these
tokens and ends with a report.
-/

namespace Abacus

variable {σ : Type} [TokenSupply σ]

/-- What a request has given, and what it has left. -/
def Pulled.split {α : Type} : Pulled σ α → Except ParseError α × σ
  | .ok a s => (.ok a, s)
  | .error e s => (.error e, s)

/-- What is left by a request is what is left by the operation that answers it. -/
theorem Outcome.snd_split_toPulled {τ α : Type} (o : Outcome τ α) :
  o.toPulled.split.2 = o.rest
  := by
  cases o <;> rfl

/-- What is given where a token is taken `n` times, also behind a failure, and what is left. -/
def Buffered.takes : Nat → Buffered σ → List (Except ParseError Token) × Buffered σ
  | 0, l => ([], l)
  | n + 1, l =>
    let (first, l) := l.take.split
    let (rest, l) := takes n l
    (first :: rest, l)

/-- The tokens that are taken where `Draft.read` reads on from the draft. A token that is refused
is among them if it is taken. -/
def Draft.consumed (goal : Goal) : Nat → Draft → Buffered σ → List Token
  | 0, _, _ => []
  | bound + 1, d, l =>
    match d.result? goal with
    | some _ => []
    | none =>
      match l.look with
      | .error _ _ => []
      | .ok t l' =>
        match (d.step goal t).move with
        | .take next => t :: consumed goal bound next l'.dropFront
        | .finish _ => []
        | .reject _ taken => if taken then [t] else []

/-- The reading for the goal takes the tokens and ends with the report. -/
def Goal.Ends (goal : Goal) (l : Buffered σ) (tokens : List Token) (r : Report σ) : Prop :=
  ∃ bound, Draft.read goal bound {} l = some r ∧ Draft.consumed goal bound {} l = tokens

end Abacus
