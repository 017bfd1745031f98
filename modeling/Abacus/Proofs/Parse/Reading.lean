import Abacus.Parse.Reading

/-!
# Reading to the end

`Draft.goOn` reads on from a draft of a finite supply, as `Draft.read` does with a bound that
is never reached, and `Draft.goOn_eq` is its recursion without the bound. `Draft.extend` is the
part of a reading that takes tokens: the draft that a list of tokens makes of a draft. A supply
that reads as an expression comes to a marker of the end, `exists_gives_of_result_eq_ok`, and the
tokens that it `Gives` before then extend the draft to a complete one, `result_goOn_eq_ok_iff`. The
result depends on these tokens and on the position of the marker, `GivesUntil`, and on nothing else,
`GivesUntil.result_eq`.
-/

namespace Abacus

variable {σ : Type}

/-! ### Reading without a bound -/

/-- A larger bound gives the same report. -/
theorem Draft.read_mono [TokenSupply σ] {goal : Goal} {d : Draft} {l : Buffered σ}
    {bound bound' : Nat} {r : Report σ} (h : Draft.read goal bound d l = some r)
    (hle : bound ≤ bound') :
  Draft.read goal bound' d l = some r
  := by
  induction bound generalizing d l bound' r with
  | zero => cases h
  | succ bound ih =>
    obtain ⟨bound', rfl⟩ := Nat.exists_eq_add_one_of_ne_zero (Nat.ne_zero_of_lt hle)
    have hle := Nat.le_of_succ_le_succ hle
    rw [Draft.read] at h ⊢
    cases he : d.result? goal with
    | some e =>
      simp only [he] at h
      apply h
    | none =>
      cases hl : l.look with
      | error e l' =>
        simp only [he, hl] at h
        apply h
      | ok t l' =>
        cases hm : (d.step goal t).move with
        | take next =>
          simp only [he, hl, hm] at h ⊢
          obtain ⟨r', hr', rfl⟩ := Option.map_eq_some_iff.mp h
          rw [ih hr' hle, Option.map_some]
        | finish e =>
          simp only [he, hl, hm] at h ⊢
          apply h
        | reject e taken =>
          simp only [he, hl, hm] at h ⊢
          apply h

/-- The report of reading on from the draft. -/
def Draft.goOn [FiniteSupply σ] (goal : Goal) (d : Draft) (l : Buffered σ) : Report σ :=
  (Draft.read goal (l.size + 1) d l).get (Draft.read_isSome (Nat.lt_succ_self _))

theorem Goal.read_eq_goOn [FiniteSupply σ] (goal : Goal) (l : Buffered σ) :
  goal.read l = ({} : Draft).goOn goal l
  := rfl

theorem Draft.read_eq_goOn [FiniteSupply σ] {goal : Goal} {d : Draft} {l : Buffered σ}
    {bound : Nat} (h : l.size < bound) :
  Draft.read goal bound d l = some (d.goOn goal l)
  := by
  apply Draft.read_mono _ h
  rw [Draft.goOn, Option.some_get]

/-- Reading on, one token further. -/
theorem Draft.goOn_eq [FiniteSupply σ] (goal : Goal) (d : Draft) (l : Buffered σ) :
  d.goOn goal l =
    match d.result? goal with
    | some e => ⟨.ok e, l, []⟩
    | none =>
      match l.look with
      | .error e l => ⟨.error e, l, []⟩
      | .ok t l' =>
        let step := d.step goal t
        let events := l.lookEvents t ++ step.built.map .built
        match step.move with
        | .take next => (next.goOn goal l'.dropFront).prepend events
        | .finish e => ⟨.ok e, l', events⟩
        | .reject e taken => ⟨.error e, if taken then l'.dropFront else l', events⟩
  := by
  apply Option.some.inj
  rw [← Draft.read_eq_goOn (Nat.lt_succ_self _), Draft.read]
  cases d.result? goal with
  | some e => rfl
  | none =>
    cases hl : l.look with
    | error e l' => rfl
    | ok t l' =>
      cases hm : (d.step goal t).move with
      | take next =>
        have hlt := Buffered.size_dropFront_lt hl (Draft.kind_ne_finish_of_take hm)
        simp only [hm, Draft.read_eq_goOn hlt, Option.map_some]
      | finish e => simp only [hm]
      | reject e taken => simp only [hm]

/-! ### The tokens that a draft takes -/

namespace Draft

/-- The draft extended by tokens, `none` if one of them is not taken. -/
def extend (goal : Goal) : Draft → List Token → Option Draft
  | d, [] => some d
  | d, t :: tokens =>
    match (d.step goal t).move with
    | .take next => next.extend goal tokens
    | _ => none

theorem extend_cons_of_take {goal : Goal} {d next : Draft} {t : Token} (tokens : List Token)
    (h : (d.step goal t).move = .take next) :
  d.extend goal (t :: tokens) = next.extend goal tokens
  := by
  simp only [extend, h]

theorem extend_append (goal : Goal) (d : Draft) (tokens tokens' : List Token) :
  d.extend goal (tokens ++ tokens') = (d.extend goal tokens).bind (·.extend goal tokens')
  := by
  induction tokens generalizing d with
  | nil => rfl
  | cons t tokens ih =>
    simp only [List.cons_append, extend]
    split
    · apply ih
    · rfl

/-- Extending by tokens in two portions. -/
theorem extend_append_of_eq_some {goal : Goal} {d d' : Draft} {tokens : List Token}
    (tokens' : List Token) (h : d.extend goal tokens = some d') :
  d.extend goal (tokens ++ tokens') = d'.extend goal tokens'
  := by
  rw [extend_append, h, Option.bind_some]

/-- The expression of a draft that is complete, which is one that waits for no operand and has
no open group. -/
def complete? : Draft → Option Expr
  | ⟨.after e, pending, []⟩ => some (settle 0 e pending).operand
  | _ => none

/-- A reading of the whole has no result before it has looked at the next token. -/
theorem result?_whole (d : Draft) :
  d.result? .whole = none
  := by
  rcases d with ⟨_ | _ | _, _ | _, _ | _⟩ <;> rfl

/-- A marker of the end finishes the complete drafts and no others. -/
theorem move_of_isFinish {d : Draft} {t : Token} (ht : t.isFinish) (e : Expr) :
  (d.step .whole t).move = .finish e ↔ d.complete? = some e
  := by
  have hkind : t.kind = .finish := by simpa [Token.isFinish] using ht
  have hsign : t.sign? = none := by simp [Token.sign?, hkind]
  have hliteral : t.isLiteral = false := by simp [Token.isLiteral, hkind]
  have hopening : t.isOpening = false := by simp [Token.isOpening, hkind]
  have hclosing : t.isClosing = false := by simp [Token.isClosing, hkind]
  rcases d with ⟨_ | negative | operand, pending, _ | ⟨group, groups⟩⟩ <;>
    simp [step, stepOperand, stepSigned, stepAfter, stepEnd, complete?, hkind, hsign, hliteral,
      hopening, hclosing, ht]

/-- Only a marker of the end finishes a reading of the whole source. -/
theorem isFinish_of_move {d : Draft} {t : Token} {e : Expr}
    (h : (d.step .whole t).move = .finish e) :
  t.isFinish
  := by
  rcases d with ⟨_ | negative | operand, pending, groups⟩
  · simp only [step, stepOperand] at h
    repeat' split at h
    all_goals cases h
  · simp only [step, stepSigned] at h
    repeat' split at h
    all_goals cases h
  · simp only [step, stepAfter] at h
    split at h
    · split at h
      · cases h
      · simp only [stepOperator] at h
        cases h
    · simp only [stepEnd] at h
      split at h
      · split at h <;> cases h
      · split at h
        · cases h
        · next hfinish => simpa using hfinish

end Draft

/-! ### Supplies that come to an end -/

/-- The supply gives the tokens and then a marker of the end. -/
inductive Gives [TokenSupply σ] : σ → List Token → Prop
  | finish {s s' : σ} {t : Token} (h : TokenSupply.pull s = .ok t s') (ht : t.isFinish) :
      Gives s []
  | cons {s s' : σ} {t : Token} {tokens : List Token} (h : TokenSupply.pull s = .ok t s')
      (ht : ¬ t.isFinish) (hrest : Gives s' tokens) : Gives s (t :: tokens)

/-- The supply gives the tokens and then a marker of the end at the position. -/
inductive GivesUntil [TokenSupply σ] (position : Nat) : σ → List Token → Prop
  | finish {s s' : σ} (h : TokenSupply.pull s = .ok (.finish position) s') :
      GivesUntil position s []
  | cons {s s' : σ} {t : Token} {tokens : List Token} (h : TokenSupply.pull s = .ok t s')
      (ht : ¬ t.isFinish) (hrest : GivesUntil position s' tokens) :
      GivesUntil position s (t :: tokens)

theorem GivesUntil.gives [TokenSupply σ] {position : Nat} {s : σ} {tokens : List Token}
    (h : GivesUntil position s tokens) :
  Gives s tokens
  := by
  induction h with
  | finish hpull => exact .finish hpull rfl
  | cons hpull ht _ ih => exact .cons hpull ht ih

theorem GivesUntil.not_isFinish_of_mem [TokenSupply σ] {position : Nat} {s : σ}
    {tokens : List Token} (h : GivesUntil position s tokens) :
  ∀ t ∈ tokens, ¬ t.isFinish
  := by
  induction h with
  | finish => nofun
  | cons _ ht _ ih =>
    intro u hu
    rcases List.mem_cons.mp hu with rfl | hu
    · apply ht
    · apply ih u hu

theorem not_isFinish_of_take {goal : Goal} {d next : Draft} {t : Token}
    (h : (d.step goal t).move = .take next) :
  ¬ t.isFinish
  := by
  simpa [Token.isFinish] using Draft.kind_ne_finish_of_take h

/-- The result of reading the whole of a supply, decided by the next token. -/
theorem result_goOn_eq [FiniteSupply σ] (d : Draft) (s : σ) :
  (d.goOn .whole { supply := s }).result =
    match TokenSupply.pull s with
    | .error e _ => .error e
    | .ok t s' =>
      match (d.step .whole t).move with
      | .take next => (next.goOn .whole { supply := s' }).result
      | .finish e => .ok e
      | .reject e _ => .error e
  := by
  rw [Draft.goOn_eq, Draft.result?_whole]
  simp only [Buffered.look]
  cases TokenSupply.pull s with
  | error e s' => rfl
  | ok t s' =>
    dsimp only
    split <;> rfl

/-- A supply whose reading succeeds comes to a marker of the end. -/
theorem exists_gives_of_result_eq_ok [FiniteSupply σ] {d : Draft} {s : σ} {e : Expr}
    (h : (d.goOn .whole { supply := s }).result = .ok e) :
  ∃ tokens, Gives s tokens
  := by
  induction hsize : FiniteSupply.size s using Nat.strongRecOn generalizing d s with
  | ind size ih =>
    rw [result_goOn_eq] at h
    cases hp : TokenSupply.pull s with
    | error e' s' =>
      rw [hp] at h
      cases h
    | ok t s' =>
      rw [hp] at h
      cases hm : (d.step .whole t).move with
      | take next =>
        simp only [hm] at h
        have hlt := FiniteSupply.size_pull_lt hp (Draft.kind_ne_finish_of_take hm)
        obtain ⟨tokens, htokens⟩ := ih _ (hsize ▸ hlt) h rfl
        exact ⟨t :: tokens, .cons hp (not_isFinish_of_take hm) htokens⟩
      | finish e' => exact ⟨[], .finish hp (Draft.isFinish_of_move hm)⟩
      | reject error taken =>
        simp only [hm] at h
        cases h

/-- The error of a reading is one of the supply, or one with which a token of the supply is
refused. -/
theorem exists_cause_of_result_eq_error {σ : Type} [FiniteSupply σ] {d : Draft} {s : σ}
    {error : ParseError} (h : (d.goOn .whole { supply := s }).result = .error error) :
  (∃ s s' : σ, TokenSupply.pull s = .error error s')
    ∨ ∃ (s s' : σ) (t : Token) (d : Draft) (taken : Bool), TokenSupply.pull s = .ok t s'
      ∧ (d.step .whole t).move = .reject error taken
  := by
  induction hsize : FiniteSupply.size s using Nat.strongRecOn generalizing d s with
  | ind size ih =>
    rw [result_goOn_eq] at h
    cases hpull : TokenSupply.pull s with
    | error error' s' =>
      rw [hpull] at h
      cases h
      exact .inl ⟨s, s', hpull⟩
    | ok t s' =>
      rw [hpull] at h
      cases hmove : (d.step .whole t).move with
      | take next =>
        simp only [hmove] at h
        have hlt := FiniteSupply.size_pull_lt hpull (Draft.kind_ne_finish_of_take hmove)
        apply ih _ (hsize ▸ hlt) h rfl
      | finish e =>
        simp only [hmove] at h
        cases h
      | reject error' taken =>
        simp only [hmove] at h
        cases h
        exact .inr ⟨s, s', t, d, taken, hpull, hmove⟩

/-- The tokens before the first marker of the end decide whether the reading succeeds: they have
to extend the draft to a complete one. -/
theorem result_goOn_eq_ok_iff [FiniteSupply σ] {s : σ} {tokens : List Token} (h : Gives s tokens)
    (d : Draft) (e : Expr) :
  (d.goOn .whole { supply := s }).result = .ok e
    ↔ ∃ d', d.extend .whole tokens = some d' ∧ d'.complete? = some e
  := by
  induction h generalizing d with
  | @finish s s' t hp ht =>
    rw [result_goOn_eq, hp, Draft.extend]
    simp only [Option.some.injEq, exists_eq_left', ← Draft.move_of_isFinish ht]
    cases hm : (d.step .whole t).move with
    | take next => apply absurd ht (not_isFinish_of_take hm)
    | finish e' => rw [Except.ok.injEq, Move.finish.injEq]
    | reject error taken => constructor <;> nofun
  | @cons s s' t tokens hp ht hrest ih =>
    rw [result_goOn_eq, hp]
    cases hm : (d.step .whole t).move with
    | take next =>
      simp only [hm, Draft.extend_cons_of_take _ hm]
      apply ih
    | finish e' => apply absurd (Draft.isFinish_of_move hm) ht
    | reject error taken => simp [Draft.extend, hm]

/-! ### Lists of tokens as supplies -/

/-- The result of reading the whole of a list, decided by its first token. -/
theorem result_goOn_cons (d : Draft) (t : Token) (tokens : List Token) (finish : Nat) :
  (d.goOn .whole { supply := TokenList.mk (t :: tokens) finish }).result =
    match (d.step .whole t).move with
    | .take next => (next.goOn .whole { supply := TokenList.mk tokens finish }).result
    | .finish e => .ok e
    | .reject e _ => .error e
  := result_goOn_eq d (TokenList.mk (t :: tokens) finish)

/-- The result behind the last token of a list, decided by the marker of the end there. -/
theorem result_goOn_nil (d : Draft) (finish : Nat) :
  (d.goOn .whole { supply := TokenList.mk [] finish }).result =
    match (d.step .whole (.finish finish)).move with
    | .take next => (next.goOn .whole { supply := TokenList.mk [] finish }).result
    | .finish e => .ok e
    | .reject e _ => .error e
  := result_goOn_eq d (TokenList.mk [] finish)

/-- A supply is read as the list of its tokens with the end at the same position. -/
theorem GivesUntil.result_eq [FiniteSupply σ] {position : Nat} {s : σ} {tokens : List Token}
    (h : GivesUntil position s tokens) (d : Draft) :
  (d.goOn .whole { supply := s }).result
    = (d.goOn .whole { supply := TokenList.mk tokens position }).result
  := by
  induction h generalizing d with
  | finish hpull =>
    rw [result_goOn_eq, hpull, result_goOn_nil]
    dsimp only
    cases hmove : (d.step .whole (.finish position)).move with
    | take next => apply absurd rfl (not_isFinish_of_take hmove)
    | finish e | reject error taken => rfl
  | @cons s s' t tokens hpull _ _ ih =>
    rw [result_goOn_eq, hpull, result_goOn_cons]
    dsimp only
    cases (d.step .whole t).move with
    | take next => apply ih
    | finish e | reject error taken => rfl

/-- The tokens before the first marker of the end. -/
def beforeFinish (tokens : List Token) : List Token :=
  tokens.takeWhile fun t => !t.isFinish

theorem TokenList.gives_beforeFinish (tokens : List Token) (finish : Nat) :
  Gives (TokenList.mk tokens finish) (beforeFinish tokens)
  := by
  induction tokens with
  | nil => exact .finish rfl rfl
  | cons t tokens ih =>
    by_cases ht : t.isFinish
    · have hnil : beforeFinish (t :: tokens) = [] := by simp [beforeFinish, ht]
      rw [hnil]
      exact .finish rfl ht
    · have hcons : beforeFinish (t :: tokens) = t :: beforeFinish tokens := by
        simp [beforeFinish, ht]
      rw [hcons]
      exact .cons rfl ht ih

end Abacus
