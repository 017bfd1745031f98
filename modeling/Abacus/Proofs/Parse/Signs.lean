import Mathlib.Data.List.DropRight
import Abacus.Proofs.Parse.Grafting
import Abacus.Proofs.Token.Lexical

/-!
# The signs of a literal

A run of signs in front of a literal belongs to the literal, but for the first of the run where that
one stands behind an operand: it is the operator between the two. `governingSigns` are the signs that
are left. So the literals of an expression can be told from its tokens, from left to right and
without regard to groups and precedences, `Derives.leaves_eq`.
-/

namespace Abacus

/-- The token is the last of an operand: a literal or the closing of a group. -/
def Token.endsOperand (t : Token) : Bool :=
  t.isLiteral || t.isClosing

/-- The last of the tokens is the last of an operand. -/
def endsOperand (tokens : List Token) : Bool :=
  tokens.getLast?.any Token.endsOperand

/-- The signs that govern a literal behind the tokens: the run of signs at their end, without the
first of the run if an operand ends in front of it. -/
def governingSigns (before : List Token) : List Token :=
  let run := before.rtakeWhile fun t => t.sign?.isSome
  if endsOperand (before.rdropWhile fun t => t.sign?.isSome) then run.tail else run

/-- The text behind the sign that the governing signs amount to, if there are any. -/
def governedText (before : List Token) (text : String) : String :=
  if governingSigns before = [] then text
  else signedText (negativeSigns (governingSigns before)) text

/-- The leaves made of the literals among the tokens, which stand behind the tokens `before`. -/
def leavesBehind (before : List Token) : List Token → List (Token.Kind × String)
  | [] => []
  | t :: tokens =>
    if t.isLiteral then
      (t.kind, governedText before t.text) :: leavesBehind (before ++ [t]) tokens
    else leavesBehind (before ++ [t]) tokens

/-- The sign that governs a literal is split off from the text of its leaf. -/
theorem splitSign_governedText {kind : Token.Kind} {text : String}
    (h : isLiteralText kind text.toList) (before : List Token) :
  (splitSign (governedText before text).toList).2 = text.toList
  := by
  rw [governedText]
  split
  · rw [splitSign_of_isLiteralText h]
  · rw [splitSign_signedText]

/-! ### Leaves in portions -/

theorem leavesBehind_cons_of_isLiteral (before : List Token) {t : Token} (ht : t.isLiteral)
    (tokens : List Token) :
  leavesBehind before (t :: tokens)
    = (t.kind, governedText before t.text) :: leavesBehind (before ++ [t]) tokens
  := by
  rw [leavesBehind, if_pos ht]

/-- A token that is no literal makes no leaf. -/
theorem leavesBehind_cons_of_not_isLiteral (before : List Token) {t : Token}
    (ht : t.isLiteral = false) (tokens : List Token) :
  leavesBehind before (t :: tokens) = leavesBehind (before ++ [t]) tokens
  := by
  rw [leavesBehind, if_neg (Bool.eq_false_iff.mp ht)]

/-- The leaves of two portions of tokens. -/
theorem leavesBehind_append (before tokens tokens' : List Token) :
  leavesBehind before (tokens ++ tokens')
    = leavesBehind before tokens ++ leavesBehind (before ++ tokens) tokens'
  := by
  induction tokens generalizing before with
  | nil => rw [List.nil_append, leavesBehind, List.nil_append, List.append_nil]
  | cons t tokens ih =>
    rw [List.cons_append, leavesBehind, leavesBehind, ih, List.append_cons before t tokens]
    by_cases ht : t.isLiteral
    · rw [if_pos ht, if_pos ht, List.cons_append]
    · rw [if_neg ht, if_neg ht]

theorem leavesBehind_of_forall_not (before : List Token) {tokens : List Token}
    (h : ∀ t ∈ tokens, t.isLiteral = false) :
  leavesBehind before tokens = []
  := by
  induction tokens generalizing before with
  | nil => rfl
  | cons t tokens ih =>
    rw [List.forall_mem_cons] at h
    rw [leavesBehind_cons_of_not_isLiteral _ h.1, ih _ h.2]

/-- A leaf is made of a literal of its kind, whose text stands behind at most one sign. -/
theorem exists_of_mem_leavesBehind {before tokens : List Token} {leaf : Token.Kind × String}
    (h : leaf ∈ leavesBehind before tokens) :
  ∃ t ∈ tokens, t.isLiteral ∧ ∃ before', leaf = (t.kind, governedText before' t.text)
  := by
  induction tokens generalizing before with
  | nil => cases h
  | cons t tokens ih =>
    rw [leavesBehind] at h
    split at h
    · next ht =>
      rcases List.mem_cons.mp h with rfl | h
      · exact ⟨t, List.mem_cons_self, ht, before, rfl⟩
      · obtain ⟨u, hu, hrest⟩ := ih h
        exact ⟨u, List.mem_cons_of_mem t hu, hrest⟩
    · obtain ⟨u, hu, hrest⟩ := ih h
      exact ⟨u, List.mem_cons_of_mem t hu, hrest⟩

/-! ### Governing signs -/

theorem sign?_of_kind_ne_operator {t : Token} (h : t.kind ≠ .operator) :
  t.sign? = none
  := by
  rw [Token.sign?, if_neg h]

theorem sign?_of_endsOperand {t : Token} (h : t.endsOperand) :
  t.sign? = none
  := by
  rw [Token.endsOperand, Bool.or_eq_true] at h
  rcases h with h | h
  · apply sign?_of_isLiteral h
  · apply sign?_of_kind_ne_operator
    rw [kind_of_isClosing h]
    nofun

theorem endsOperand_concat (tokens : List Token) (t : Token) :
  endsOperand (tokens ++ [t]) = t.endsOperand
  := by
  rw [endsOperand, List.getLast?_concat, Option.any_some]

/-- A run at the end of a list, in front of which the predicate fails. -/
theorem rtakeWhile_append_eq {α : Type} {p : α → Bool} {front run : List α}
    (hfront : ∀ a ∈ front.getLast?, ¬ p a) (hrun : ∀ a ∈ run, p a) :
  (front ++ run).rtakeWhile p = run ∧ (front ++ run).rdropWhile p = front
  := by
  induction run using List.reverseRecOn with
  | nil =>
    rw [List.append_nil, List.rtakeWhile_eq_nil_iff, List.rdropWhile_eq_self_iff]
    have hlast : ∀ hne : front ≠ [], ¬ p (front.getLast hne) := fun hne =>
      hfront _ (List.getLast?_eq_some_getLast hne)
    exact ⟨hlast, hlast⟩
  | append_singleton run a ih =>
    rw [List.forall_mem_append, List.forall_mem_singleton] at hrun
    obtain ⟨htake, hdrop⟩ := ih hrun.1
    rw [← List.append_assoc, List.rtakeWhile_concat_pos _ _ _ hrun.2,
      List.rdropWhile_concat_pos _ _ _ hrun.2, htake, hdrop]
    exact ⟨rfl, rfl⟩

/-- The signs behind tokens of which the last is no sign. -/
theorem governingSigns_append {front signs : List Token}
    (hfront : ∀ t ∈ front.getLast?, t.sign? = none) (hsigns : ∀ s ∈ signs, s.sign?.isSome) :
  governingSigns (front ++ signs) = if endsOperand front then signs.tail else signs
  := by
  have hlast : ∀ t ∈ front.getLast?, ¬ t.sign?.isSome := by
    intro t ht
    rw [hfront t ht]
    nofun
  obtain ⟨htake, hdrop⟩ := rtakeWhile_append_eq (p := fun t : Token => t.sign?.isSome) hlast hsigns
  rw [governingSigns, htake, hdrop]

/-- Signs behind the tokens govern the literal behind them, all of them: an operand begins. -/
def OpensOperand (before : List Token) : Prop :=
  ∀ signs : List Token, (∀ s ∈ signs, s.sign?.isSome) → governingSigns (before ++ signs) = signs

theorem opensOperand_nil :
  OpensOperand []
  := by
  intro signs hsigns
  have hfront : ∀ t ∈ ([] : List Token).getLast?, t.sign? = none := nofun
  rw [governingSigns_append hfront hsigns]
  rfl

/-- An operand begins behind a token that neither ends one nor is a sign. -/
theorem opensOperand_concat (before : List Token) {t : Token} (hsign : t.sign? = none)
    (hends : t.endsOperand = false) :
  OpensOperand (before ++ [t])
  := by
  intro signs hsigns
  have hfront : ∀ u ∈ (before ++ [t]).getLast?, u.sign? = none := by
    rw [List.getLast?_concat]
    rintro u ⟨⟩
    apply hsign
  rw [governingSigns_append hfront hsigns, endsOperand_concat, hends, if_neg Bool.false_ne_true]

theorem opensOperand_opening (before : List Token) {t : Token} (ht : t.isOpening) :
  OpensOperand (before ++ [t])
  := by
  apply opensOperand_concat before (sign?_of_isOpening ht)
  rw [Token.isOpening, Bool.and_eq_true, decide_eq_true_iff, decide_eq_true_iff] at ht
  simp [Token.endsOperand, Token.isLiteral, Token.isClosing, ht]

/-- An operand begins behind an operator behind an operand, also where the operator looks like a
sign. -/
theorem opensOperand_operator {before : List Token} {t : Token} {op : Operator}
    (hbefore : endsOperand before) (ht : t.isOperator op) :
  OpensOperand (before ++ [t])
  := by
  cases hsign : t.sign? with
  | none =>
    apply opensOperand_concat before hsign
    simp [Token.endsOperand, Token.isLiteral, Token.isClosing, ht.1]
  | some negative =>
    intro signs hsigns
    have hfront : ∀ u ∈ before.getLast?, u.sign? = none := by
      intro u hu
      rw [endsOperand, hu, Option.any_some] at hbefore
      apply sign?_of_endsOperand hbefore
    have hrun : ∀ s ∈ t :: signs, s.sign?.isSome := by
      rw [List.forall_mem_cons, hsign]
      exact ⟨rfl, hsigns⟩
    rw [List.append_assoc, List.singleton_append, governingSigns_append hfront hrun,
      if_pos hbefore, List.tail_cons]

theorem governedText_of_opensOperand {before signs : List Token} (hbefore : OpensOperand before)
    (hne : signs ≠ []) (hsigns : ∀ s ∈ signs, s.sign?.isSome) (text : String) :
  governedText (before ++ signs) text = signedText (negativeSigns signs) text
  := by
  rw [governedText, hbefore signs hsigns, if_neg hne]

/-! ### The leaves of a derivation -/

/-- A derivation ends with the end of an operand. -/
theorem Derives.endsOperand {level : Level} {tokens : List Token} {e : Expr}
    (h : Derives level tokens e) (before : List Token) :
  endsOperand (before ++ tokens)
  := by
  induction h using operatorInduction generalizing before with
  | literal ht => rw [endsOperand_concat, Token.endsOperand, ht, Bool.true_or]
  | signed _ _ ht =>
    rw [← List.append_assoc, endsOperand_concat, Token.endsOperand, ht, Bool.true_or]
  | group _ _ hclosing =>
    rw [← List.append_assoc, endsOperand_concat, Token.endsOperand, hclosing, Bool.or_true]
  | loosen _ _ ih => apply ih
  | binary _ _ _ _ _ ihy =>
    rw [← List.append_assoc, List.append_cons]
    apply ihy

/-- The leaves of an expression are those that its tokens make. -/
theorem Derives.leaves_eq {level : Level} {tokens : List Token} {e : Expr}
    (h : Derives level tokens e) {before : List Token} (hbefore : OpensOperand before) :
  e.leaves = leavesBehind before tokens
  := by
  induction h using operatorInduction generalizing before with
  | literal ht =>
    have hnone := hbefore [] (List.forall_mem_nil _)
    rw [List.append_nil] at hnone
    rw [leavesBehind_cons_of_isLiteral _ ht, governedText, if_pos hnone]
    rfl
  | signed hne hsigns ht =>
    have hskip := leavesBehind_of_forall_not before fun s hs =>
      isLiteral_of_sign?_isSome (hsigns s hs)
    rw [leavesBehind_append, hskip, List.nil_append, leavesBehind_cons_of_isLiteral _ ht,
      governedText_of_opensOperand hbefore hne hsigns]
    rfl
  | group hopening _ hclosing ih =>
    rw [leavesBehind_append, leavesBehind_cons_of_not_isLiteral _ (isLiteral_of_isOpening hopening),
      leavesBehind_cons_of_not_isLiteral _ (isLiteral_of_isClosing hclosing), leavesBehind,
      List.append_nil]
    apply ih (opensOperand_opening before hopening)
  | loosen _ _ ih => apply ih hbefore
  | binary _ hx ht _ ihx ihy =>
    rw [Expr.leaves, ihx hbefore, ihy (opensOperand_operator (hx.endsOperand before) ht),
      leavesBehind_append, leavesBehind_cons_of_not_isLiteral _ (isLiteral_of_isOperator ht)]

end Abacus
