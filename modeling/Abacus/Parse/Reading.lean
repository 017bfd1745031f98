import Abacus.Event
import Abacus.Parse.Buffered
import Abacus.Parse.Draft

/-!
# Reading expressions

`Draft.read` extends a draft by the tokens of a supply until its goal is met, or a token or the
supply fails. A token is looked at first and taken only where the draft takes it, so what
follows an expression is left to whoever reads on. The first argument bounds the number of
tokens looked at. For a finite supply `l` the bound `l.size + 1` is never reached,
`Draft.read_isSome`, and `Goal.read` reads with this bound; `parse` reads an expression that
takes up the whole supply. Precedence climbing, which has no bound, reads the same,
`Goal.report_climbing`.
-/

namespace Abacus

/-- The end of a reading: the expression or the error, the tokens left, and the events. -/
structure Report (σ : Type) where
  result : Except ParseError Expr
  rest : Buffered σ
  log : List Event

variable {σ : Type}

/-- The report with earlier events before its own. -/
def Report.prepend (events : List Event) (r : Report σ) : Report σ :=
  { r with log := events ++ r.log }

/-- The event of looking at the token `t` of `l`. There is none if `t` was looked at
before. -/
def Buffered.lookEvents (l : Buffered σ) (t : Token) : List Event :=
  if l.front.isSome || t.isFinish then [] else [.token t]

/-- The report of reading on from the draft `d`, or `none` if more tokens than the bound are
looked at. -/
def Draft.read [TokenSupply σ] (goal : Goal) :
    Nat → Draft → Buffered σ → Option (Report σ)
  | 0, _, _ => none
  | bound + 1, d, l =>
    match d.result? goal with
    | some e => some ⟨.ok e, l, []⟩
    | none =>
      match l.look with
      | .error e l => some ⟨.error e, l, []⟩
      | .ok t l' =>
        let step := d.step goal t
        let events := l.lookEvents t ++ step.built.map .built
        match step.move with
        | .take next => (Draft.read goal bound next l'.dropFront).map (·.prepend events)
        | .finish e => some ⟨.ok e, l', events⟩
        | .reject e taken => some ⟨.error e, if taken then l'.dropFront else l', events⟩

/-! ### The bound -/

/-- A token that a draft takes is no marker of the end. -/
theorem Draft.kind_ne_finish_of_take {goal : Goal} {d next : Draft} {t : Token}
    (h : (d.step goal t).move = .take next) :
  t.kind ≠ .finish
  := by
  intro ht
  have hsign : t.sign? = none := by simp [Token.sign?, ht]
  have hliteral : t.isLiteral = false := by simp [Token.isLiteral, ht]
  have hopening : t.isOpening = false := by simp [Token.isOpening, ht]
  have hclosing : t.isClosing = false := by simp [Token.isClosing, ht]
  rcases d with ⟨_ | negative | e, pending, _ | ⟨group, groups⟩⟩ <;>
    simp [step, stepOperand, stepSigned, stepAfter, stepEnd, hsign, ht, hliteral, hopening,
      hclosing] at h
  split at h <;> simp at h

/-- The bound is never reached in a finite supply. -/
theorem Draft.read_isSome [FiniteSupply σ] {goal : Goal} {d : Draft} {l : Buffered σ}
    {bound : Nat} (h : l.size < bound) :
  (Draft.read goal bound d l).isSome
  := by
  induction bound generalizing d l with
  | zero => omega
  | succ bound ih =>
    rw [Draft.read]
    split
    · rfl
    · split
      · rfl
      · next t l' hl =>
        dsimp only
        split
        · next next hm =>
          have := Buffered.size_dropFront_lt hl (Draft.kind_ne_finish_of_take hm)
          rw [Option.isSome_map]
          apply ih
          omega
        · rfl
        · rfl

/-! ### Reading from finite supplies -/

/-- The report of reading for the goal. -/
def Goal.read [FiniteSupply σ] (goal : Goal) (l : Buffered σ) : Report σ :=
  (Draft.read goal (l.size + 1) {} l).get (Draft.read_isSome (Nat.lt_succ_self _))

/-- The expression that takes up the whole supply. -/
def parse [FiniteSupply σ] (supply : σ) : Except ParseError Expr :=
  (Goal.whole.read { supply }).result

/-- The expression that a list of tokens makes up. -/
def parseTokens (tokens : List Token) : Except ParseError Expr :=
  parse (TokenList.ofTokens tokens)

/-- The expression that a text makes up. -/
def parseText (text : String) : Except ParseError Expr :=
  parse (CharReader.ofText text)

end Abacus
