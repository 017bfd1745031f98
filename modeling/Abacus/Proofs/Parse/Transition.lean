import Abacus.Proofs.Parse.Grammar

/-!
# What the goal decides

A token does the same to a draft for every goal, except where the draft is complete: there the goal
decides whether an operator is taken or ends the expression, and whether another token ends it or is
refused. `Transition` names the cases, and every draft and token are in one of them,
`Draft.transition`. The operators that wait outside all groups, `Draft.outermost`, are changed by
nothing but an operator behind a complete draft.
-/

namespace Abacus

/-! ### Settling everything -/

/-- If nothing is left waiting, settling has closed every operator. -/
theorem operand_settle_of_pending_eq_nil {bound : Nat} {operand : Expr} {pending : List Pending}
    (h : (settle bound operand pending).pending = []) :
  (settle bound operand pending).operand = closeAll operand pending
  := by
  induction pending generalizing operand with
  | nil => rfl
  | cons p pending ih =>
    rw [settle] at h ⊢
    split at h
    · next hbound =>
      rw [if_pos hbound]
      apply ih h
    · cases h

namespace Draft

/-- The operators that wait outside all groups. -/
def outermost (d : Draft) : List Pending :=
  d.groups.getLastD d.pending

/-- What a token does to a draft. -/
inductive Transition (d : Draft) (t : Token) : Prop
  /-- The token is taken, and nothing changes outside all groups. -/
  | taken {built : List Expr} {next : Draft} (h : ∀ goal, d.step goal t = ⟨built, .take next⟩)
      (houtermost : next.outermost = d.outermost)
  /-- The token stands in the place of another one. -/
  | refused {built : List Expr} {expected : Expected}
      (h : ∀ goal, d.step goal t = ⟨built, .reject (.unexpected t expected) true⟩)
  /-- The token is an operator that the table does not know. -/
  | unknown (h : ∀ goal, d.step goal t = ⟨[], .reject (.unknownOperator t) false⟩)
  /-- The token is an operator behind a complete draft. -/
  | operator {operand : Expr} {pending : List Pending} {op : Operator}
      (hd : d = ⟨.after operand, pending, []⟩) (ht : t.isOperator op)
      (h : ∀ goal, d.step goal t = d.stepOperator goal operand op)
  /-- The token is no operator and behind a complete draft. -/
  | ending {operand : Expr} {pending : List Pending} (hd : d = ⟨.after operand, pending, []⟩)
      (ht : t.kind ≠ .operator) (h : ∀ goal, d.step goal t = d.stepEnd goal operand t)

variable {pending : List Pending} {groups : List (List Pending)} {t : Token}

/-- Where an operand has to begin. -/
theorem transition_operand :
  Transition ⟨.operand, pending, groups⟩ t
  := by
  cases hsign : t.sign? with
  | some negative =>
    have h : ∀ goal, step goal ⟨.operand, pending, groups⟩ t
        = ⟨[], .take ⟨.signed negative, pending, groups⟩⟩ := by
      intro goal
      simp only [step, stepOperand, hsign]
    exact .taken h rfl
  | none =>
    by_cases hliteral : t.isLiteral
    · have h : ∀ goal, step goal ⟨.operand, pending, groups⟩ t
          = ⟨[], .take ⟨.after (.literal t.kind t.text), pending, groups⟩⟩ := by
        intro goal
        simp only [step, stepOperand, hsign, hliteral, if_true]
      exact .taken h rfl
    · by_cases hopening : t.isOpening
      · have h : ∀ goal, step goal ⟨.operand, pending, groups⟩ t
            = ⟨[], .take ⟨.operand, [], pending :: groups⟩⟩ := by
          intro goal
          simp only [step, stepOperand, hsign, if_neg hliteral, hopening, if_true]
        apply Transition.taken h
        simp only [outermost, List.getLastD_cons]
      · have h : ∀ goal, step goal ⟨.operand, pending, groups⟩ t
            = ⟨[], .reject (.unexpected t .factor) true⟩ := by
          intro goal
          simp only [step, stepOperand, hsign, if_neg hliteral, if_neg hopening]
        exact .refused h

/-- Behind the signs of an operand. -/
theorem transition_signed (negative : Bool) :
  Transition ⟨.signed negative, pending, groups⟩ t
  := by
  cases hsign : t.sign? with
  | some more =>
    have h : ∀ goal, step goal ⟨.signed negative, pending, groups⟩ t
        = ⟨[], .take ⟨.signed (negative ^^ more), pending, groups⟩⟩ := by
      intro goal
      simp only [step, stepSigned, hsign]
    exact .taken h rfl
  | none =>
    by_cases hliteral : t.isLiteral
    · have h : ∀ goal, step goal ⟨.signed negative, pending, groups⟩ t
          = ⟨[], .take ⟨.after (.literal t.kind (signedText negative t.text)), pending, groups⟩⟩ := by
        intro goal
        simp only [step, stepSigned, hsign, hliteral, if_true]
      exact .taken h rfl
    · have h : ∀ goal, step goal ⟨.signed negative, pending, groups⟩ t
          = ⟨[], .reject (.unexpected t .literal) true⟩ := by
        intro goal
        simp only [step, stepSigned, hsign, if_neg hliteral]
      exact .refused h

theorem step_of_isOperator {operand : Expr} {op : Operator} (ht : t.isOperator op) (goal : Goal) :
  step goal ⟨.after operand, pending, groups⟩ t
    = stepOperator goal operand ⟨.after operand, pending, groups⟩ op
  := by
  have hop : Operator.ofSymbol? t.text = some op := Operator.ofSymbol?_eq_some_iff.mpr ht.2
  simp only [step, stepAfter, ht.1, hop, if_true]

/-- A known operator in a group is taken. -/
theorem stepOperator_in_group (operand : Expr) (group : List Pending) (op : Operator)
    (goal : Goal) :
  stepOperator goal operand ⟨.after operand, pending, group :: groups⟩ op
    = ⟨(settle op.precedence operand pending).built,
      .take ⟨.operand, ⟨op, (settle op.precedence operand pending).operand⟩
        :: (settle op.precedence operand pending).pending, group :: groups⟩⟩
  := by
  cases goal with
  | factor | whole => rfl
  | expression m =>
    cases hpending : (settle op.precedence operand pending).pending <;>
      simp only [stepOperator, hpending]

/-- Behind an operand in a group. -/
theorem transition_after_in_group (operand : Expr) (group : List Pending) :
  Transition ⟨.after operand, pending, group :: groups⟩ t
  := by
  by_cases hkind : t.kind = .operator
  · cases hop : Operator.ofSymbol? t.text with
    | none =>
      have h : ∀ goal, step goal ⟨.after operand, pending, group :: groups⟩ t
          = ⟨[], .reject (.unknownOperator t) false⟩ := by
        intro goal
        simp only [step, stepAfter, if_pos hkind, hop]
      exact .unknown h
    | some op =>
      have ht : t.isOperator op := ⟨hkind, Operator.ofSymbol?_eq_some_iff.mp hop⟩
      have h : ∀ goal, step goal ⟨.after operand, pending, group :: groups⟩ t
          = ⟨(settle op.precedence operand pending).built,
            .take ⟨.operand, ⟨op, (settle op.precedence operand pending).operand⟩
              :: (settle op.precedence operand pending).pending, group :: groups⟩⟩ := by
        intro goal
        rw [step_of_isOperator ht, stepOperator_in_group]
      apply Transition.taken h
      simp only [outermost, List.getLastD_cons]
  · by_cases hclosing : t.isClosing
    · have h : ∀ goal, step goal ⟨.after operand, pending, group :: groups⟩ t
          = ⟨(settle 0 operand pending).built,
            .take ⟨.after (settle 0 operand pending).operand, group, groups⟩⟩ := by
        intro goal
        simp only [step, stepAfter, if_neg hkind, stepEnd, hclosing, if_true]
      apply Transition.taken h
      simp only [outermost, List.getLastD_cons]
    · have h : ∀ goal, step goal ⟨.after operand, pending, group :: groups⟩ t
          = ⟨(settle 0 operand pending).built, .reject (.unexpected t .closing) true⟩ := by
        intro goal
        simp only [step, stepAfter, if_neg hkind, stepEnd, if_neg hclosing]
      exact .refused h

/-- Behind an operand outside all groups. -/
theorem transition_after_outermost (operand : Expr) :
  Transition ⟨.after operand, pending, []⟩ t
  := by
  by_cases hkind : t.kind = .operator
  · cases hop : Operator.ofSymbol? t.text with
    | none =>
      have h : ∀ goal, step goal ⟨.after operand, pending, []⟩ t
          = ⟨[], .reject (.unknownOperator t) false⟩ := by
        intro goal
        simp only [step, stepAfter, if_pos hkind, hop]
      exact .unknown h
    | some op =>
      have ht : t.isOperator op := ⟨hkind, Operator.ofSymbol?_eq_some_iff.mp hop⟩
      exact .operator rfl ht (step_of_isOperator ht)
  · have h : ∀ goal, step goal ⟨.after operand, pending, []⟩ t
        = stepEnd goal operand ⟨.after operand, pending, []⟩ t := by
      intro goal
      simp only [step, stepAfter, if_neg hkind]
    exact .ending rfl hkind h

/-- Every token does one of these things. -/
theorem transition (d : Draft) (t : Token) :
  Transition d t
  := by
  rcases d with ⟨_ | negative | operand, pending, _ | ⟨group, groups⟩⟩
  · apply transition_operand
  · apply transition_operand
  · apply transition_signed
  · apply transition_signed
  · apply transition_after_outermost
  · apply transition_after_in_group

/-! ### Complete drafts -/

/-- A goal that is met without another token is an operand. -/
theorem result?_eq_some_iff {goal : Goal} {d : Draft} {e : Expr} :
  d.result? goal = some e ↔ goal = .factor ∧ d = ⟨.after e, [], []⟩
  := by
  rcases d with ⟨_ | _ | operand, _ | _, _ | _⟩ <;> simp [result?]

variable {goal : Goal} {d next : Draft} {operand e : Expr} {op : Operator}

/-- An operator that may not be in the expression behind a complete draft, and that settles all that
waits there, ends the expression. -/
theorem stepOperator_of_lt {m : Nat} (hpending : (settle op.precedence operand pending).pending = [])
    (hlt : op.precedence < m) :
  stepOperator (.expression m) operand ⟨.after operand, pending, []⟩ op
    = ⟨(settle op.precedence operand pending).built, .finish (closeAll operand pending)⟩
  := by
  simp only [stepOperator, hpending, if_pos hlt, operand_settle_of_pending_eq_nil hpending]

/-- Any other operator behind a complete draft is taken. -/
theorem stepOperator_of_not (h : ∀ m, goal = .expression m →
      (settle op.precedence operand pending).pending = [] → m ≤ op.precedence) :
  stepOperator goal operand ⟨.after operand, pending, []⟩ op
    = ⟨(settle op.precedence operand pending).built,
      .take ⟨.operand, ⟨op, (settle op.precedence operand pending).operand⟩
        :: (settle op.precedence operand pending).pending, []⟩⟩
  := by
  cases goal with
  | factor | whole => rfl
  | expression m =>
    cases hpending : (settle op.precedence operand pending).pending with
    | nil => simp only [stepOperator, hpending, if_neg (Nat.not_lt.mpr (h m rfl hpending))]
    | cons => simp only [stepOperator, hpending]

/-- An operator behind a complete draft does one of the two. -/
theorem stepOperator_cases (goal : Goal) (operand : Expr) (pending : List Pending)
    (op : Operator) :
  (∃ m, goal = .expression m ∧ (settle op.precedence operand pending).pending = []
      ∧ op.precedence < m)
    ∨ ∀ m, goal = .expression m → (settle op.precedence operand pending).pending = [] →
      m ≤ op.precedence
  := by
  by_cases h : ∃ m, goal = .expression m ∧ (settle op.precedence operand pending).pending = []
      ∧ op.precedence < m
  · exact .inl h
  · right
    intro m hgoal hpending
    apply Nat.le_of_not_lt
    intro hlt
    exact h ⟨m, hgoal, hpending, hlt⟩

/-- The token is behind an expression of the minimum: it is no operator, or its precedence is
less. -/
inductive EndsExpression (m : Nat) (t : Token) : Prop
  | other (h : t.kind ≠ .operator)
  | operator {op : Operator} (h : t.isOperator op) (hlt : op.precedence < m)

/-- What ends an expression is behind a complete draft, and is behind the expression for its
minimum. -/
theorem of_finish (h : (d.step goal t).move = .finish e) :
  (∃ operand pending, d = ⟨.after operand, pending, []⟩ ∧ e = closeAll operand pending)
    ∧ ∀ m, goal = .expression m → EndsExpression m t
  := by
  cases d.transition t with
  | taken hstep | refused hstep | unknown hstep =>
    rw [hstep] at h
    cases h
  | @operator operand pending op hd ht hstep =>
    rw [hstep, hd] at h
    rcases stepOperator_cases goal operand pending op with ⟨m, rfl, hpending, hlt⟩ | htaken
    · rw [stepOperator_of_lt hpending hlt] at h
      cases h
      constructor
      · exact ⟨operand, pending, hd, rfl⟩
      · rintro _ ⟨⟩
        exact .operator ht hlt
    · rw [stepOperator_of_not htaken] at h
      cases h
  | @ending operand pending hd ht hstep =>
    rw [hstep, hd] at h
    simp only [stepEnd] at h
    split at h
    · cases h
    · cases h
      constructor
      · exact ⟨operand, pending, hd, (settle_zero operand pending).1⟩
      · exact fun _ _ => .other ht

/-- A token that is taken is taken for the goal of the whole source, and changes nothing outside all
groups unless it is an operator there. -/
theorem of_take (h : (d.step goal t).move = .take next) :
  (d.step .whole t).move = .take next
    ∧ (next.outermost = d.outermost
      ∨ ∃ operand pending op, d = ⟨.after operand, pending, []⟩ ∧ t.isOperator op
        ∧ next = ⟨.operand, ⟨op, (settle op.precedence operand pending).operand⟩
          :: (settle op.precedence operand pending).pending, []⟩)
  := by
  cases d.transition t with
  | taken hstep houtermost =>
    rw [hstep] at h
    cases h
    rw [hstep]
    exact ⟨rfl, .inl houtermost⟩
  | refused hstep | unknown hstep =>
    rw [hstep] at h
    cases h
  | @operator operand pending op hd ht hstep =>
    rw [hstep, hd] at h ⊢
    rcases stepOperator_cases goal operand pending op with ⟨m, rfl, hpending, hlt⟩ | htaken
    · rw [stepOperator_of_lt hpending hlt] at h
      cases h
    · rw [stepOperator_of_not htaken] at h
      cases h
      exact ⟨rfl, .inr ⟨operand, pending, op, rfl, ht, rfl⟩⟩
  | ending hd ht hstep =>
    rw [hstep, hd] at h
    simp only [stepEnd] at h
    split at h <;> cases h

/-- A token that is refused in an operand or in an expression is taken in place of another one, or is
an unknown operator that is left. -/
theorem of_reject {error : ParseError} {taken : Bool} (hgoal : goal ≠ .whole)
    (h : (d.step goal t).move = .reject error taken) :
  (∃ expected, error = .unexpected t expected) ∧ taken = true
    ∨ error = .unknownOperator t ∧ taken = false
  := by
  cases d.transition t with
  | taken hstep =>
    rw [hstep] at h
    cases h
  | refused hstep =>
    rw [hstep] at h
    cases h
    exact .inl ⟨⟨_, rfl⟩, rfl⟩
  | unknown hstep =>
    rw [hstep] at h
    cases h
    exact .inr ⟨rfl, rfl⟩
  | @operator operand pending op hd ht hstep =>
    rw [hstep, hd] at h
    rcases stepOperator_cases goal operand pending op with ⟨m, rfl, hpending, hlt⟩ | htaken
    · rw [stepOperator_of_lt hpending hlt] at h
      cases h
    · rw [stepOperator_of_not htaken] at h
      cases h
  | ending hd ht hstep =>
    rw [hstep, hd] at h
    simp only [stepEnd] at h
    split at h
    · next hwhole => exact absurd hwhole.1 hgoal
    · cases h

end Draft

end Abacus
