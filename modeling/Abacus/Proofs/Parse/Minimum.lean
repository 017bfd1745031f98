import Mathlib.Data.List.Basic
import Abacus.Proofs.Parse.Course
import Abacus.Proofs.Parse.Transition

/-!
# Expressions of different minimums

For a greater minimum every token does the same, except that an operator outside all groups may be
behind the expression for the greater minimum and belong to it for the smaller one,
`Draft.step_of_le`. So two courses from one draft are the same up to the first such operator,
`Course.part`, and from there on the shorter expression stays the leftmost part of what the longer
course reads, `Course.isLeftPart`.
-/

namespace Abacus

variable {σ : Type} [TokenSupply σ]

/-- The first expression is the second one, or the left operand of its operator, or the left operand
of the operator of that, and so on. -/
inductive Expr.IsLeftPart (e : Expr) : Expr → Prop
  | refl : IsLeftPart e e
  | left {op : Operator} {left right : Expr} (h : IsLeftPart e left) :
      IsLeftPart e (.binary op left right)

/-! ### One token -/

namespace Draft

/-- For a greater minimum a token does the same, or it is an operator between the two minimums that
ends the expression. For the smaller minimum the operator is then taken, with the expression as its
left operand. -/
theorem step_of_le {m m' : Nat} (hle : m ≤ m') (d : Draft) (t : Token) :
  d.step (.expression m') t = d.step (.expression m) t
    ∨ ∃ built e op, t.isOperator op ∧ m ≤ op.precedence ∧ op.precedence < m'
      ∧ d.step (.expression m') t = ⟨built, .finish e⟩
      ∧ d.step (.expression m) t = ⟨built, .take ⟨.operand, [⟨op, e⟩], []⟩⟩
  := by
  cases d.transition t with
  | taken hstep | refused hstep | unknown hstep =>
    left
    rw [hstep, hstep]
  | @operator operand pending op hd ht hstep =>
    rw [hstep, hstep, hd]
    rcases stepOperator_cases (.expression m') operand pending op with
      ⟨_, ⟨⟩, hpending, hlt⟩ | htaken
    · rw [stepOperator_of_lt hpending hlt]
      by_cases hlt' : op.precedence < m
      · left
        rw [stepOperator_of_lt hpending hlt']
      · right
        have hm := Nat.le_of_not_lt hlt'
        refine ⟨_, _, op, ht, hm, hlt, rfl, ?_⟩
        rw [stepOperator_of_not, hpending, operand_settle_of_pending_eq_nil hpending]
        rintro _ ⟨⟩ -
        apply hm
    · left
      rw [stepOperator_of_not htaken, stepOperator_of_not]
      rintro _ ⟨⟩ hpending
      apply Nat.le_trans hle (htaken m' rfl hpending)
  | ending hd ht hstep =>
    left
    rw [hstep, hstep, hd]
    rfl

/-- Minimums without an operator between them are the same. -/
theorem step_eq_of_le {m m' : Nat} (hle : m ≤ m')
    (hnone : ∀ op : Operator, m ≤ op.precedence → m' ≤ op.precedence) (d : Draft) (t : Token) :
  d.step (.expression m') t = d.step (.expression m) t
  := by
  rcases step_of_le hle d t with heq | ⟨_, _, op, -, hm, hlt, -, -⟩
  · apply heq
  · exact absurd hlt (Nat.not_lt.mpr (hnone op hm))

theorem result?_expression (m : Nat) (d : Draft) :
  d.result? (.expression m) = none
  := by
  cases hresult : d.result? (.expression m) with
  | none => rfl
  | some e => cases (result?_eq_some_iff.mp hresult).1

end Draft

/-! ### The leftmost part -/

/-- Settling closes the operators in front, up to those that are left. -/
theorem exists_settle_eq_closeAll (bound : Nat) (operand : Expr) (pending : List Pending) :
  ∃ inner, pending = inner ++ (settle bound operand pending).pending
    ∧ (settle bound operand pending).operand = closeAll operand inner
  := by
  induction pending generalizing operand with
  | nil => exact ⟨[], rfl, rfl⟩
  | cons p pending ih =>
    rw [settle]
    split
    · obtain ⟨inner, hpending, hoperand⟩ := ih (.binary p.op p.left operand)
      refine ⟨p :: inner, ?_, hoperand⟩
      rw [List.cons_append, ← hpending]
    · exact ⟨[], rfl, rfl⟩

/-- The expression is the leftmost part of the left operand of the outermost operator that waits. -/
def Draft.BeginsWith (e : Expr) (pending : List Pending) : Prop :=
  ∃ p ∈ pending.getLast?, e.IsLeftPart p.left

namespace Draft.BeginsWith

variable {e operand : Expr} {pending : List Pending}

/-- Where all operators have their right operands, the expression is still the leftmost part. -/
theorem isLeftPart_closeAll (h : BeginsWith e pending) :
  e.IsLeftPart (closeAll operand pending)
  := by
  obtain ⟨p, hp, hleft⟩ := h
  obtain ⟨inner, rfl⟩ := List.getLast?_eq_some_iff.mp hp
  rw [closeAll_append_singleton]
  exact .left hleft

/-- An operator that is taken leaves the outermost operator where it is, or comes in its place and
has everything before it as its left operand. -/
theorem settle (h : BeginsWith e pending) (op : Operator) :
  BeginsWith e (⟨op, (settle op.precedence operand pending).operand⟩
    :: (Abacus.settle op.precedence operand pending).pending)
  := by
  obtain ⟨inner, hpending, hoperand⟩ := exists_settle_eq_closeAll op.precedence operand pending
  cases hrest : (Abacus.settle op.precedence operand pending).pending with
  | nil =>
    rw [hrest, List.append_nil] at hpending
    rw [hoperand, ← hpending]
    exact ⟨_, rfl, h.isLeftPart_closeAll⟩
  | cons q rest =>
    obtain ⟨p, hp, hleft⟩ := h
    refine ⟨p, ?_, hleft⟩
    rw [hpending, hrest, List.getLast?_append_of_ne_nil _ (List.cons_ne_nil q rest)] at hp
    rw [List.getLast?_cons_cons]
    apply hp

end Draft.BeginsWith

namespace Course

variable {goal : Goal} {d : Draft} {l : Buffered σ} {tokens : List Token} {r : Report σ} {e : Expr}

/-- What a draft begins with is the leftmost part of what is read from it. -/
theorem isLeftPart (h : Course goal d l tokens r) (hd : Draft.BeginsWith e d.outermost)
    {result : Expr} (hresult : r.result = .ok result) :
  e.IsLeftPart result
  := by
  induction h with
  | met hgoal =>
    obtain ⟨-, rfl⟩ := Draft.result?_eq_some_iff.mp hgoal
    obtain ⟨p, ⟨⟩, -⟩ := hd
  | failed | rejected => cases hresult
  | finished _ _ hmove =>
    cases hresult
    obtain ⟨⟨operand, pending, rfl, rfl⟩, -⟩ := Draft.of_finish hmove
    apply hd.isLeftPart_closeAll
  | taken _ _ hmove _ ih =>
    rcases (Draft.of_take hmove).2 with houtermost | ⟨operand, pending, op, rfl, -, rfl⟩
    · apply ih (houtermost ▸ hd) hresult
    · apply ih (hd.settle op) hresult

/-! ### Two courses -/

/-- How a course for the smaller minimum stands to one for the greater minimum. -/
inductive Raised (m m' : Nat) (d : Draft) (l : Buffered σ) (tokens' : List Token) (r' : Report σ) :
    Prop
  /-- It is the same. -/
  | same (h : Course (.expression m) d l tokens' r')
  /-- An operator between the minimums ends the expression for the greater one. For the smaller one
  it is taken and waits behind the expression. -/
  | operator {t : Token} {op : Operator} {e : Expr} (he : r'.result = .ok e)
      (hfront : r'.rest.front = some t) (ht : t.isOperator op) (hm : m ≤ op.precedence)
      (hlt : op.precedence < m')
      (hon : ∀ tokens r, Course (.expression m) d l tokens r → ∃ more r₁,
        Course (.expression m) ⟨.operand, [⟨op, e⟩], []⟩ r'.rest.dropFront more r₁
          ∧ tokens = tokens' ++ t :: more ∧ r.result = r₁.result) :
      Raised m m' d l tokens' r'

/-- A token that is taken for both minimums. -/
theorem Raised.taken {m m' : Nat} {d next : Draft} {l l' : Buffered σ} {t : Token}
    {tokens : List Token} {r : Report σ} (hlook : l.look = .ok t l')
    (hmove : (d.step (.expression m) t).move = .take next)
    (h : Raised m m' next l'.dropFront tokens r) :
  Raised m m' d l (t :: tokens)
    (r.prepend (l.lookEvents t ++ (d.step (.expression m) t).built.map .built))
  := by
  cases h with
  | same h => exact .same (.taken (Draft.result?_expression m d) hlook hmove h)
  | operator he hfront ht hm hlt hon =>
    refine .operator he hfront ht hm hlt fun tokens r h => ?_
    have hfirst := h.first
    simp only [Draft.result?_expression, hlook, hmove] at hfirst
    obtain ⟨more, r₁, hrest, rfl, rfl⟩ := hfirst
    obtain ⟨more', r₂, hrest', rfl, hresult⟩ := hon more r₁ hrest
    exact ⟨more', r₂, hrest', rfl, hresult⟩

/-- From every draft. -/
theorem raised {m m' : Nat} (hle : m ≤ m') (h : Course (.expression m') d l tokens r) :
  Raised m m' d l tokens r
  := by
  induction h with
  | met hgoal => cases (Draft.result?_expression m' _).symm.trans hgoal
  | failed _ hlook => exact .same (.failed (Draft.result?_expression m _) hlook)
  | @finished d l l' t e _ hlook hmove =>
    rcases Draft.step_of_le hle d t with hsame | ⟨built, e', op, ht, hm, hlt, hstep', hstep⟩
    · rw [hsame] at hmove ⊢
      exact .same (.finished (Draft.result?_expression m d) hlook hmove)
    · rw [hstep'] at hmove ⊢
      cases hmove
      apply Raised.operator rfl (Buffered.front_of_look_ok hlook) ht hm hlt
      intro tokens r h
      have hfirst := h.first
      simp only [Draft.result?_expression, hlook, hstep] at hfirst
      obtain ⟨more, r₁, hrest, rfl, rfl⟩ := hfirst
      exact ⟨more, r₁, hrest, rfl, rfl⟩
  | @rejected d l l' t error taken _ hlook hmove =>
    rcases Draft.step_of_le hle d t with hsame | ⟨_, _, _, -, -, -, hstep', -⟩
    · rw [hsame] at hmove ⊢
      exact .same (.rejected (Draft.result?_expression m d) hlook hmove)
    · rw [hstep'] at hmove
      cases hmove
  | @taken d next l l' t tokens r _ hlook hmove _ ih =>
    rcases Draft.step_of_le hle d t with hsame | ⟨_, _, _, -, -, -, hstep', -⟩
    · rw [hsame] at hmove ⊢
      apply ih.taken hlook hmove
    · rw [hstep'] at hmove
      cases hmove

/-- Where the course for the smaller minimum ends, so does the one for the greater minimum. -/
theorem exists_of_le {m m' : Nat} (hle : m ≤ m') (h : Course (.expression m) d l tokens r) :
  ∃ tokens' r', Course (.expression m') d l tokens' r'
  := by
  induction h with
  | met hgoal => cases (Draft.result?_expression m _).symm.trans hgoal
  | failed _ hlook => exact ⟨_, _, .failed (Draft.result?_expression m' _) hlook⟩
  | @finished d l l' t e _ hlook hmove =>
    rcases Draft.step_of_le hle d t with hsame | ⟨_, _, _, -, -, -, hstep', -⟩
    · rw [← hsame] at hmove
      exact ⟨_, _, .finished (Draft.result?_expression m' d) hlook hmove⟩
    · exact ⟨_, _, .finished (Draft.result?_expression m' d) hlook (congrArg Step.move hstep')⟩
  | @rejected d l l' t error taken _ hlook hmove =>
    rcases Draft.step_of_le hle d t with hsame | ⟨_, _, _, -, -, -, hstep', -⟩
    · rw [← hsame] at hmove
      exact ⟨_, _, .rejected (Draft.result?_expression m' d) hlook hmove⟩
    · exact ⟨_, _, .finished (Draft.result?_expression m' d) hlook (congrArg Step.move hstep')⟩
  | @taken d next l l' t tokens r _ hlook hmove _ ih =>
    rcases Draft.step_of_le hle d t with hsame | ⟨_, _, _, -, -, -, hstep', -⟩
    · rw [← hsame] at hmove
      obtain ⟨tokens', r', hrest⟩ := ih
      exact ⟨_, _, .taken (Draft.result?_expression m' d) hlook hmove hrest⟩
    · exact ⟨_, _, .finished (Draft.result?_expression m' d) hlook (congrArg Step.move hstep')⟩

end Course

/-- Minimums without an operator between them have the same readings. -/
theorem Goal.ends_iff_of_le {m m' : Nat} (hle : m ≤ m')
    (hnone : ∀ op : Operator, m ≤ op.precedence → m' ≤ op.precedence) (l : Buffered σ)
    (tokens : List Token) (r : Report σ) :
  (Goal.expression m).Ends l tokens r ↔ (Goal.expression m').Ends l tokens r
  := by
  have hsteps := Draft.step_eq_of_le hle hnone
  rw [ends_iff_course, ends_iff_course]
  constructor
  · apply Course.congr (fun d => by rw [Draft.result?_expression, Draft.result?_expression]) hsteps
  · apply Course.congr (fun d => by rw [Draft.result?_expression, Draft.result?_expression])
      fun d t => (hsteps d t).symm

/-- A greater minimum only ends an expression earlier. If the reading for it fails, the one for the
smaller minimum is the same. If both succeed, the tokens of the shorter reading are the first ones of
the longer, and its expression is the leftmost part of the other. If only the reading for the smaller
minimum fails, the other one has ended before an operator between the two minimums. -/
theorem read_raised_minimum (m m' : Nat) (hle : m ≤ m') (l : Buffered σ) :
  (∀ tokens' r' error, (Goal.expression m').Ends l tokens' r' → r'.result = .error error →
      (Goal.expression m).Ends l tokens' r'
        ∧ ∀ tokens r, (Goal.expression m).Ends l tokens r → tokens = tokens' ∧ r = r')
    ∧ (∀ tokens tokens' r r' e e', (Goal.expression m).Ends l tokens r →
      (Goal.expression m').Ends l tokens' r' → r.result = .ok e → r'.result = .ok e' →
      tokens' <+: tokens ∧ e'.IsLeftPart e)
    ∧ (∀ tokens tokens' r r' error e', (Goal.expression m).Ends l tokens r →
      (Goal.expression m').Ends l tokens' r' → r.result = .error error → r'.result = .ok e' →
      ∃ t op, r'.rest.front = some t ∧ t.isOperator op ∧ m ≤ op.precedence ∧ op.precedence < m')
    ∧ (∀ tokens r, (Goal.expression m).Ends l tokens r →
      ∃ tokens' r', (Goal.expression m').Ends l tokens' r')
    ∧ (∀ tokens r, (Goal.expression 0).Ends l tokens r ↔ (Goal.expression 1).Ends l tokens r)
    ∧ ∀ k, 4 ≤ k → ∀ tokens r,
      (Goal.expression 4).Ends l tokens r ↔ (Goal.expression k).Ends l tokens r
  := by
  simp only [ends_iff_course]
  refine ⟨?_, ?_, ?_, fun _ _ h => h.exists_of_le hle, ?_, ?_⟩
  · intro tokens' r' error h' herror
    cases h'.raised hle with
    | same h => exact ⟨h, fun _ _ h₁ => h₁.unique h⟩
    | operator he => cases he.symm.trans herror
  · intro tokens tokens' r r' e e' h h' he he'
    cases h'.raised hle with
    | same h₁ =>
      obtain ⟨rfl, rfl⟩ := h.unique h₁
      cases he.symm.trans he'
      exact ⟨List.prefix_rfl, .refl⟩
    | operator he₁ hfront ht hm hlt hon =>
      cases he₁.symm.trans he'
      obtain ⟨more, r₁, hrest, rfl, hresult⟩ := hon tokens r h
      constructor
      · apply List.prefix_append
      · apply hrest.isLeftPart ⟨_, rfl, .refl⟩ (hresult.symm.trans he)
  · intro tokens tokens' r r' error e' h h' herror he'
    cases h'.raised hle with
    | same h₁ =>
      obtain ⟨rfl, rfl⟩ := h.unique h₁
      cases herror.symm.trans he'
    | operator he₁ hfront ht hm hlt => exact ⟨_, _, hfront, ht, hm, hlt⟩
  · intro tokens r
    rw [← ends_iff_course, ← ends_iff_course]
    apply Goal.ends_iff_of_le (Nat.zero_le 1) fun op _ => op.precedence_pos
  · intro k hk tokens r
    rw [← ends_iff_course, ← ends_iff_course]
    apply Goal.ends_iff_of_le hk
    intro op hop
    cases op <;> exact absurd hop (by decide)

/-- Behind `2*x` in `2*x-4` the minimum `2` stops at the minus sign, which the minimum `1` takes. In
`2-)` the smaller minimum fails, and the greater one ends before the minus sign. -/
theorem read_raised_minimum_difference :
  1 ≤ 2
    ∧ ((Goal.expression 1).Ends ({ supply := .ofTokens [⟨.number, "2", 0⟩, ⟨.operator, "*", 1⟩,
        ⟨.constant, "x", 2⟩, ⟨.operator, "-", 3⟩, ⟨.number, "4", 4⟩] } : Buffered TokenList)
      [⟨.number, "2", 0⟩, ⟨.operator, "*", 1⟩, ⟨.constant, "x", 2⟩, ⟨.operator, "-", 3⟩,
        ⟨.number, "4", 4⟩]
      ((Goal.expression 1).read { supply := .ofTokens [⟨.number, "2", 0⟩, ⟨.operator, "*", 1⟩,
        ⟨.constant, "x", 2⟩, ⟨.operator, "-", 3⟩, ⟨.number, "4", 4⟩] }))
    ∧ [⟨.number, "2", 0⟩, ⟨.operator, "*", 1⟩, ⟨.constant, "x", 2⟩]
      <+: [⟨.number, "2", 0⟩, ⟨.operator, "*", 1⟩, ⟨.constant, "x", 2⟩, ⟨.operator, "-", 3⟩,
        (⟨.number, "4", 4⟩ : Token)]
    ∧ Expr.IsLeftPart (.binary .mul (.literal .number "2") (.literal .constant "x"))
      (.binary .sub (.binary .mul (.literal .number "2") (.literal .constant "x"))
        (.literal .number "4"))
    ∧ ∃ t op, ((Goal.expression 2).read ({ supply := .ofTokens [⟨.number, "2", 0⟩,
        ⟨.operator, "-", 1⟩, ⟨.parenthesis, ")", 2⟩] } : Buffered TokenList)).rest.front = some t
      ∧ t.isOperator op ∧ 1 ≤ op.precedence ∧ op.precedence < 2
  := by
  have hends := fun m => Goal.ends_read (.expression m) ({ supply := .ofTokens [⟨.number, "2", 0⟩,
    ⟨.operator, "*", 1⟩, ⟨.constant, "x", 2⟩, ⟨.operator, "-", 3⟩,
    ⟨.number, "4", 4⟩] } : Buffered TokenList)
  have hends' := fun m => Goal.ends_read (.expression m) ({ supply := .ofTokens [⟨.number, "2", 0⟩,
    ⟨.operator, "-", 1⟩, ⟨.parenthesis, ")", 2⟩] } : Buffered TokenList)
  obtain ⟨hfront, hpart⟩ := (read_raised_minimum 1 2 (by decide) _).2.1 _ _ _ _ _ _
    (hends 1) (hends 2) rfl rfl
  exact ⟨by decide, hends 1, hfront, hpart, (read_raised_minimum 1 2 (by decide) _).2.2.1
    _ _ _ _ _ _ (hends' 1) (hends' 2) rfl rfl⟩

end Abacus
