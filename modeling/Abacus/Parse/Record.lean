import Abacus.Parse.Consumption

/-!
# Supplies that keep a record

`TokenSupply.pulls` makes one request after the other and shows what a supply gives. A `Recorded`
supply gives the same and keeps a record of it, so the record behind a reading shows how far the
reading has gone.
-/

namespace Abacus

variable {σ : Type} [TokenSupply σ]

/-- What is given by `n` requests, also behind a failure, and what is left. -/
def TokenSupply.pulls : Nat → σ → List (Except ParseError Token) × σ
  | 0, s => ([], s)
  | n + 1, s =>
    let (first, s) := (pull s).split
    let (rest, s) := pulls n s
    (first :: rest, s)

/-- A supply, and a record of what it has given. -/
structure Recorded (σ : Type) where
  supply : σ
  record : List (Except ParseError Token) := []

instance : TokenSupply (Recorded σ) where
  pull s :=
    match TokenSupply.pull s.supply with
    | .ok t supply => .ok t ⟨supply, s.record ++ [.ok t]⟩
    | .error error supply => .error error ⟨supply, s.record ++ [.error error]⟩

/-- The supply with an empty record, and with no token looked at. -/
def Recorded.start (s : σ) : Buffered (Recorded σ) :=
  { supply := { supply := s } }

end Abacus
