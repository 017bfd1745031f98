import Abacus.Parse.Supply

/-!
# Looking one token ahead

A `Buffered` supply has room for one token that has been looked at but not taken.
`Buffered.look` gives the next token and leaves it, `Buffered.take` takes it.
-/

namespace Abacus

/-- A supply, and the token in front of it that was looked at, if any. -/
structure Buffered (σ : Type) where
  supply : σ
  front : Option Token := none

namespace Buffered

variable {σ : Type}

/-- The tokens behind the one looked at. -/
def dropFront (l : Buffered σ) : Buffered σ :=
  { l with front := none }

/-- The next token, which is left. -/
def look [TokenSupply σ] (l : Buffered σ) : Pulled (Buffered σ) Token :=
  match l.front with
  | some t => .ok t l
  | none =>
    match TokenSupply.pull l.supply with
    | .error e supply => .error e { supply }
    | .ok t supply => .ok t { supply, front := some t }

/-- The next token, which is taken. -/
def take [TokenSupply σ] (l : Buffered σ) : Pulled (Buffered σ) Token :=
  match l.look with
  | .error e l => .error e l
  | .ok t l => .ok t l.dropFront

/-- A bound on the number of tokens to come. -/
def size [FiniteSupply σ] (l : Buffered σ) : Nat :=
  FiniteSupply.size l.supply + (if l.front.isSome then 1 else 0)

/-- Taking a token other than a marker of the end leaves fewer to come. -/
theorem size_dropFront_lt [FiniteSupply σ] {l l' : Buffered σ} {t : Token}
    (h : l.look = .ok t l') (ht : t.kind ≠ .finish) :
  l'.dropFront.size < l.size
  := by
  rcases l with ⟨supply, _ | u⟩
  · simp only [look] at h
    split at h
    · simp at h
    · next hp =>
      simp at h
      obtain ⟨rfl, rfl⟩ := h
      simpa [size, dropFront] using FiniteSupply.size_pull_lt hp ht
  · simp [look] at h
    obtain ⟨rfl, rfl⟩ := h
    simp [size, dropFront]

end Buffered

end Abacus
