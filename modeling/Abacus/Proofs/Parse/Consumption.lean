import Abacus.Proofs.Parse.Course
import Abacus.Proofs.Parse.Transition
import Abacus.Proofs.Parse.ViablePrefix

/-!
# Readings take what they report

An expression that is read is the expression of the tokens taken alone, since these extend the empty
draft to a complete one for the goal of the whole source as well, `Course.exists_complete`. What is
left begins with the token that ends the expression; an operand is complete without a look at
another token, `Course.yields_of_factor`. Where a reading fails, `FailsAt` says how the error stands
to the tokens taken and to those left. Altogether no token is lost and none is taken twice,
`read_consumes_reported`.
-/

namespace Abacus

variable {σ : Type} [TokenSupply σ]

namespace Course

variable {goal : Goal} {d : Draft} {l : Buffered σ} {tokens : List Token} {r : Report σ} {e : Expr}

/-! ### The expression of the tokens taken -/

/-- The tokens of a reading that succeeds complete the draft. -/
theorem exists_complete (h : Course goal d l tokens r) (he : r.result = .ok e) :
  ∃ d', d.extend .whole tokens = some d' ∧ d'.complete? = some e
  := by
  induction h with
  | met hgoal =>
    cases he
    obtain ⟨-, rfl⟩ := Draft.result?_eq_some_iff.mp hgoal
    exact ⟨_, rfl, rfl⟩
  | failed => cases he
  | @finished d l l' t e' hgoal hlook hmove =>
    cases he
    obtain ⟨⟨operand, pending, rfl, rfl⟩, -⟩ := Draft.of_finish hmove
    refine ⟨_, rfl, ?_⟩
    rw [Draft.complete?, (settle_zero operand pending).1]
  | rejected => cases he
  | taken _ _ hmove _ ih =>
    rw [Draft.extend_cons_of_take _ (Draft.of_take hmove).1]
    apply ih he

/-- No marker of the end is taken where a reading succeeds. -/
theorem not_isFinish_of_mem (h : Course goal d l tokens r) (he : r.result = .ok e) :
  ∀ t ∈ tokens, ¬ t.isFinish
  := by
  induction h with
  | met | failed | finished => nofun
  | rejected => cases he
  | taken _ _ hmove _ ih =>
    intro u hu
    rcases List.mem_cons.mp hu with rfl | hu
    · apply not_isFinish_of_take hmove
    · apply ih he u hu

/-- The tokens taken read as the expression that the reading has given. -/
theorem parseTokens_eq (h : Course goal {} l tokens r) (he : r.result = .ok e) :
  parseTokens tokens = .ok e
  := by
  rw [parseTokens_eq_ok_iff, beforeFinish_of_all (h.not_isFinish_of_mem he)]
  apply h.exists_complete he

/-! ### What is left -/

/-- Behind an expression the next token is left, which ends it. -/
theorem yields_of_expression {m : Nat} (h : Course (.expression m) d l tokens r)
    (he : r.result = .ok e) :
  ∃ l' t, l.Yields tokens l' ∧ l'.look = .ok t r.rest ∧ Draft.EndsExpression m t
  := by
  induction h with
  | met hgoal => cases (Draft.result?_eq_some_iff.mp hgoal).1
  | failed => cases he
  | @finished d l l' t e' hgoal hlook hmove =>
    exact ⟨l, t, .nil l, hlook, (Draft.of_finish hmove).2 m rfl⟩
  | rejected => cases he
  | taken hgoal hlook hmove _ ih =>
    obtain ⟨l', t, hyields, hrest⟩ := ih he
    exact ⟨l', t, hyields.cons hlook, hrest⟩

/-- An operand is complete as soon as its last token is taken: no operator waits outside all groups
at any time. -/
theorem yields_of_factor (h : Course .factor d l tokens r) (hd : d.outermost = [])
    (he : r.result = .ok e) :
  l.Yields tokens r.rest
  := by
  induction h with
  | met => apply Buffered.Yields.nil
  | failed | rejected => cases he
  | @finished d l l' t e' hgoal hlook hmove =>
    obtain ⟨⟨operand, pending, rfl, -⟩, -⟩ := Draft.of_finish hmove
    obtain rfl : pending = [] := hd
    cases hgoal
  | @taken d next l l' t tokens r hgoal hlook hmove hrest ih =>
    apply Buffered.Yields.cons hlook
    rcases (Draft.of_take hmove).2 with houtermost | ⟨operand, pending, op, rfl, -, -⟩
    · apply ih (houtermost.trans hd) he
    · obtain rfl : pending = [] := hd
      cases hgoal

end Course

/-! ### Errors -/

/-- What is to be taken from `l` is the list and then what is to be taken from `rest`. -/
def Buffered.ContinuesAs (l : Buffered σ) (front : List (Except ParseError Token))
    (rest : Buffered σ) : Prop :=
  ∀ n, (l.takes (front.length + n)).1 = front ++ (rest.takes n).1

/-- A token in front of both. -/
theorem Buffered.ContinuesAs.cons {l l₁ rest : Buffered σ} {t : Token}
    {front : List (Except ParseError Token)} (hlook : l.look = .ok t l₁)
    (h : l₁.dropFront.ContinuesAs front rest) :
  l.ContinuesAs (.ok t :: front) rest
  := by
  intro n
  rw [List.length_cons, Nat.succ_add, takes_cons_of_ok (take_of_look_ok hlook), h n]
  rfl

theorem Buffered.Yields.continuesAs {l l' : Buffered σ} {tokens : List Token}
    (h : l.Yields tokens l') :
  l.ContinuesAs (tokens.map .ok) l'
  := by
  intro n
  rw [List.length_map, h.fst_takes]

/-- A look at the next token behind those taken leaves everything in its place. -/
theorem Buffered.Yields.continuesAs_of_look {l l' rest : Buffered σ} {tokens : List Token}
    {t : Token} (h : l.Yields tokens l') (hlook : l'.look = .ok t rest) :
  l.ContinuesAs (tokens.map .ok) rest
  := by
  intro n
  rw [h.continuesAs, fst_takes_of_look hlook]

/-- How the error of a reading stands to the tokens taken from `l` and to what is left. -/
inductive FailsAt (l : Buffered σ) (tokens : List Token) (rest : Buffered σ) : ParseError → Prop
  /-- The supply failed behind the tokens taken, and what comes behind the failure is left. -/
  | supply {l' : Buffered σ} {error : ParseError} (h : l.Yields tokens l')
      (hlook : l'.look = .error error rest)
      (hrest : l.ContinuesAs (tokens.map .ok ++ [.error error]) rest) :
      FailsAt l tokens rest error
  /-- A token was refused in place of another one, and it is the last token taken. -/
  | refused {front : List Token} {t : Token} {expected : Expected} (htokens : tokens = front ++ [t])
      (h : l.Yields tokens rest) (hrest : l.ContinuesAs (tokens.map .ok) rest) :
      FailsAt l tokens rest (.unexpected t expected)
  /-- An unknown operator is behind the tokens taken, and it is the first token left. -/
  | unknown {l' : Buffered σ} {t : Token} (h : l.Yields tokens l') (hlook : l'.look = .ok t rest)
      (hrest : l.ContinuesAs (tokens.map .ok) rest) :
      FailsAt l tokens rest (.unknownOperator t)

namespace FailsAt

variable {l l₁ rest : Buffered σ} {t : Token} {tokens : List Token} {error : ParseError}

/-- A token taken before a reading that fails. -/
theorem cons (hlook : l.look = .ok t l₁) (h : FailsAt l₁.dropFront tokens rest error) :
  FailsAt l (t :: tokens) rest error
  := by
  cases h with
  | supply h hfailure hrest => exact .supply (h.cons hlook) hfailure (hrest.cons hlook)
  | refused htokens h hrest =>
    subst htokens
    exact .refused List.cons_append.symm (h.cons hlook) (hrest.cons hlook)
  | unknown h hunknown hrest => exact .unknown (h.cons hlook) hunknown (hrest.cons hlook)

/-- The supply fails at once. -/
theorem of_look_error (hlook : l.look = .error error rest) :
  FailsAt l [] rest error
  := by
  apply FailsAt.supply (.nil l) hlook
  intro n
  rw [List.map_nil, List.nil_append, List.length_singleton, Nat.add_comm,
    Buffered.takes_cons_of_error (Buffered.take_of_look_error hlook)]
  rfl

/-- The first token is refused in place of another one. -/
theorem of_refused (hlook : l.look = .ok t l₁) (expected : Expected) :
  FailsAt l [t] l₁.dropFront (.unexpected t expected)
  := by
  have h := Buffered.Yields.cons hlook (.nil l₁.dropFront)
  exact .refused (List.nil_append [t]).symm h h.continuesAs

/-- The first token is an unknown operator. -/
theorem of_unknown (hlook : l.look = .ok t l₁) :
  FailsAt l [] l₁ (.unknownOperator t)
  := .unknown (.nil l) hlook ((Buffered.Yields.nil l).continuesAs_of_look hlook)

end FailsAt

/-- The error of a reading of an operand or of an expression. -/
theorem Course.failsAt {goal : Goal} {d : Draft} {l : Buffered σ} {tokens : List Token}
    {r : Report σ} {error : ParseError} (h : Course goal d l tokens r) (hgoal : goal ≠ .whole)
    (he : r.result = .error error) :
  FailsAt l tokens r.rest error
  := by
  induction h with
  | met | finished => cases he
  | failed _ hlook =>
    cases he
    apply FailsAt.of_look_error hlook
  | rejected _ hlook hmove =>
    cases he
    rcases Draft.of_reject hgoal hmove with ⟨⟨expected, rfl⟩, rfl⟩ | ⟨rfl, rfl⟩
    · apply FailsAt.of_refused hlook
    · apply FailsAt.of_unknown hlook
  | taken _ hlook _ _ ih => apply (ih he).cons hlook

/-! ### All readings -/

/-- A reading of an expression or of an operand takes the tokens of what it gives and no others. The
expression is behind the tokens taken and before a token that ends it, the operand is complete without
a look at another token, and an error stands where the tokens taken end. Nothing is lost or repeated
in front of what is left. -/
theorem read_consumes_reported (l : Buffered σ) (tokens : List Token) (r : Report σ) :
  (∀ m e, (Goal.expression m).Ends l tokens r → r.result = .ok e →
      parseTokens tokens = .ok e
        ∧ l.ContinuesAs (tokens.map .ok) r.rest
        ∧ ∃ l' t, l.Yields tokens l' ∧ l'.look = .ok t r.rest ∧ Draft.EndsExpression m t)
    ∧ (∀ e, Goal.factor.Ends l tokens r → r.result = .ok e →
      parseTokens tokens = .ok e
        ∧ l.ContinuesAs (tokens.map .ok) r.rest
        ∧ l.Yields tokens r.rest ∧ r.rest.front = none)
    ∧ ∀ (goal : Goal) error, goal ≠ .whole → goal.Ends l tokens r → r.result = .error error →
      FailsAt l tokens r.rest error
  := by
  refine ⟨?_, ?_, ?_⟩
  · intro m e hends he
    have hcourse := ends_iff_course.mp hends
    obtain ⟨l', t, hyields, hlook, hstops⟩ := hcourse.yields_of_expression he
    exact ⟨hcourse.parseTokens_eq he, hyields.continuesAs_of_look hlook, l', t, hyields, hlook,
      hstops⟩
  · intro e hends he
    have hcourse := ends_iff_course.mp hends
    have hyields := hcourse.yields_of_factor rfl he
    have hparse := hcourse.parseTokens_eq he
    have hne : tokens ≠ [] := by
      rintro rfl
      cases hparse
    exact ⟨hparse, hyields.continuesAs, hyields, hyields.front_eq_none hne⟩
  · intro goal error hgoal hends he
    apply (ends_iff_course.mp hends).failsAt hgoal he

/-- The expression `2*x` in front of `-4` with the minimum `2`, the factor `-2` in front of `^4`, and
a group `(1 2)` that fails at its second number. -/
theorem read_consumes_reported_group :
  (∃ r, (Goal.expression 2).Ends ({ supply := .ofTokens [⟨.number, "2", 0⟩, ⟨.operator, "*", 1⟩,
        ⟨.constant, "x", 2⟩, ⟨.operator, "-", 3⟩, ⟨.number, "4", 4⟩] } : Buffered TokenList)
      [⟨.number, "2", 0⟩, ⟨.operator, "*", 1⟩, ⟨.constant, "x", 2⟩] r
    ∧ r.result = .ok (.binary .mul (.literal .number "2") (.literal .constant "x"))
    ∧ parseTokens [⟨.number, "2", 0⟩, ⟨.operator, "*", 1⟩, ⟨.constant, "x", 2⟩]
      = .ok (.binary .mul (.literal .number "2") (.literal .constant "x")))
    ∧ (∃ r, Goal.factor.Ends ({ supply := .ofTokens [⟨.operator, "-", 0⟩, ⟨.number, "2", 1⟩,
        ⟨.operator, "^", 2⟩, ⟨.number, "4", 3⟩] } : Buffered TokenList)
      [⟨.operator, "-", 0⟩, ⟨.number, "2", 1⟩] r
    ∧ r.result = .ok (.literal .number "-2")
    ∧ r.rest.front = none)
    ∧ ∃ r, Goal.factor.Ends ({ supply := .ofTokens [⟨.parenthesis, "(", 0⟩, ⟨.number, "1", 1⟩,
        ⟨.number, "2", 3⟩, ⟨.parenthesis, ")", 4⟩] } : Buffered TokenList)
      [⟨.parenthesis, "(", 0⟩, ⟨.number, "1", 1⟩, ⟨.number, "2", 3⟩] r
    ∧ FailsAt { supply := .ofTokens [⟨.parenthesis, "(", 0⟩, ⟨.number, "1", 1⟩,
        ⟨.number, "2", 3⟩, ⟨.parenthesis, ")", 4⟩] }
      [⟨.parenthesis, "(", 0⟩, ⟨.number, "1", 1⟩, ⟨.number, "2", 3⟩] r.rest
      (.unexpectedToken ⟨.number, "2", 3⟩ .closing)
  := by
  refine ⟨?_, ?_, ?_⟩
  · have hends := Goal.ends_read (.expression 2) ({ supply := .ofTokens [⟨.number, "2", 0⟩,
      ⟨.operator, "*", 1⟩, ⟨.constant, "x", 2⟩, ⟨.operator, "-", 3⟩,
      ⟨.number, "4", 4⟩] } : Buffered TokenList)
    exact ⟨_, hends, rfl, ((read_consumes_reported _ _ _).1 2 _ hends rfl).1⟩
  · have hends := Goal.ends_read .factor ({ supply := .ofTokens [⟨.operator, "-", 0⟩,
      ⟨.number, "2", 1⟩, ⟨.operator, "^", 2⟩, ⟨.number, "4", 3⟩] } : Buffered TokenList)
    exact ⟨_, hends, rfl, ((read_consumes_reported _ _ _).2.1 _ hends rfl).2.2.2⟩
  · have hends := Goal.ends_read .factor ({ supply := .ofTokens [⟨.parenthesis, "(", 0⟩,
      ⟨.number, "1", 1⟩, ⟨.number, "2", 3⟩, ⟨.parenthesis, ")", 4⟩] } : Buffered TokenList)
    exact ⟨_, hends, (read_consumes_reported _ _ _).2.2 .factor _ nofun hends rfl⟩

end Abacus
