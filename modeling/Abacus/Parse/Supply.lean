import Abacus.Parse.Error
import Abacus.Token.Reading

/-!
# Supplies of tokens

A `TokenSupply` gives one token, or one error, per request. In a `FiniteSupply` only finitely
many tokens come before a marker of the end or an error: each token but a marker of the end
makes the supply smaller. Supplies are the sources of characters, which read their tokens, and
the token lists, `TokenList`, which give markers of the end once they are used up.
-/

namespace Abacus

/-- What a request to a supply leaves: a result or an error, and the supply in either case. -/
abbrev Pulled (σ α : Type) : Type := EStateM.Result ParseError σ α

/-- The values of `σ` give tokens one by one. -/
class TokenSupply (σ : Type) where
  /-- The next token. -/
  pull : σ → Pulled σ Token

/-- The values of `σ` give tokens one by one and come to a marker of the end or to an
error. -/
class FiniteSupply (σ : Type) extends TokenSupply σ where
  /-- A bound on the number of tokens to come. -/
  size : σ → Nat
  size_pull_lt : ∀ {s s' : σ} {t : Token},
    pull s = .ok t s' → t.kind ≠ .finish → size s' < size s

/-! ### Tokens read from characters -/

/-- The outcome with its fault as a parse error. -/
def Outcome.toPulled {σ α : Type} : Outcome σ α → Pulled σ α
  | .ok a s => .ok a s
  | .error f s => .error (.readFailure f) s

theorem Outcome.toPulled_eq_ok_iff {σ α : Type} {o : Outcome σ α} {a : α} {s : σ} :
  o.toPulled = .ok a s ↔ o = .ok a s
  := by
  cases o <;> simp [toPulled]

-- The instance comes before the one that a reader of tokens has as such.
instance (priority := 1100) {ρ : Type} [CharSource ρ] : FiniteSupply ρ where
  pull r := (CharSource.readToken r).toPulled
  size := CharSource.bytesLeft
  size_pull_lt h := CharSource.bytesLeft_readToken_lt (Outcome.toPulled_eq_ok_iff.1 h)

/-! ### Tokens of a list -/

/-- Tokens given in advance, and the position of the end behind them. -/
structure TokenList where
  tokens : List Token
  finish : Nat
  deriving DecidableEq, Repr

namespace TokenList

/-- The position right behind the last token, `0` if there is none. A token takes up one
character at least. Positions are numbers without a bound here; in a machine word the sum
overflows for a last token at the greatest position. -/
def finishOf (tokens : List Token) : Nat :=
  match tokens.getLast? with
  | none => 0
  | some t => t.position + max 1 t.text.length

/-- The tokens as a supply, with the end right behind the last of them. -/
def ofTokens (tokens : List Token) : TokenList :=
  ⟨tokens, finishOf tokens⟩

end TokenList

instance : FiniteSupply TokenList where
  pull s :=
    match s.tokens with
    | [] => .ok (.finish s.finish) s
    | t :: tokens => .ok t { s with tokens }
  size s := s.tokens.length
  size_pull_lt := by
    rintro ⟨_ | ⟨t, tokens⟩, finish⟩ s' u h hu
    · simp at h
      exact absurd (h.1 ▸ rfl) hu
    · simp at h
      obtain ⟨-, rfl⟩ := h
      simp

end Abacus
