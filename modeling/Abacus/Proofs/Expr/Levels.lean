import Abacus.Expr.Grammar

/-!
# The levels of the grammar

The levels of the grammar are ranked by the least precedence of the operators that they apply
outside parentheses, `Level.precedence`. What derives at a level derives at every looser one,
`Derives.mono`, and an operator with operands at its own two levels derives at the level of its
precedence, `Derives.binary`. With these two, all operators are one case of an induction over a
derivation, `Derives.operatorInduction`. Positions play no part in a derivation, `Derives.congr`.
-/

namespace Abacus

/-- The least precedence of an operator applied at the level outside parentheses. -/
def Level.precedence : Level → Nat
  | sum => 1
  | product => 2
  | power => 3
  | factor => 4

theorem Level.precedence_sum_le (level : Level) :
  Level.sum.precedence ≤ level.precedence
  := by
  cases level <;> decide

theorem Level.precedence_le_factor (level : Level) :
  level.precedence ≤ Level.factor.precedence
  := by
  cases level <;> decide

namespace Operator

/-- The level of an expression that consists of the operator and its operands. -/
def level : Operator → Level
  | add => .sum
  | sub => .sum
  | mul => .product
  | div => .product
  | pow => .power

/-- The level of the left operand. -/
def leftLevel : Operator → Level
  | add => .sum
  | sub => .sum
  | mul => .product
  | div => .product
  | pow => .factor

/-- The level of the right operand. -/
def rightLevel : Operator → Level
  | add => .product
  | sub => .product
  | mul => .power
  | div => .power
  | pow => .power

theorem precedence_level (op : Operator) :
  op.level.precedence = op.precedence
  := by
  cases op <;> rfl

theorem precedence_rightLevel (op : Operator) :
  op.rightLevel.precedence = op.rightMinimum
  := by
  cases op <;> rfl

/-- The operators that may be applied in the left operand of `op` are those that the operator
`op` makes settle. -/
theorem precedence_leftLevel_le {op inner : Operator} (h : op.precedence < inner.rightMinimum) :
  op.leftLevel.precedence ≤ inner.precedence
  := by
  cases op <;> cases inner <;> first | decide | exact absurd h (by decide)

/-- The converse of `precedence_leftLevel_le`. -/
theorem precedence_lt_rightMinimum {op inner : Operator}
    (h : op.leftLevel.precedence ≤ inner.precedence) :
  op.precedence < inner.rightMinimum
  := by
  cases op <;> cases inner <;> first | decide | exact absurd h (by decide)

theorem precedence_le_leftLevel (op : Operator) :
  op.precedence ≤ op.leftLevel.precedence
  := by
  cases op <;> decide

end Operator

namespace Derives

variable {level level' : Level} {tokens : List Token} {e : Expr}

/-- A derivation at a level is one at every looser level. -/
theorem mono (h : Derives level tokens e) (hle : level'.precedence ≤ level.precedence) :
  Derives level' tokens e
  := by
  cases level with
  | sum =>
    cases level' with
    | sum => apply h
    | product | power | factor => apply absurd hle (by decide)
  | product =>
    cases level' with
    | sum => exact .ofProduct h
    | product => apply h
    | power | factor => apply absurd hle (by decide)
  | power =>
    cases level' with
    | sum => exact .ofProduct (.ofPower h)
    | product => exact .ofPower h
    | power => apply h
    | factor => apply absurd hle (by decide)
  | factor =>
    cases level' with
    | sum => exact .ofProduct (.ofPower (.ofFactor h))
    | product => exact .ofPower (.ofFactor h)
    | power => exact .ofFactor h
    | factor => apply h

/-- An operator with its operands, at the level of the operator. -/
theorem binary {op : Operator} {left right : List Token} {t : Token} {x y : Expr}
    (hx : Derives op.leftLevel left x) (ht : t.isOperator op) (hy : Derives op.rightLevel right y) :
  Derives op.level (left ++ t :: right) (.binary op x y)
  := by
  cases op with
  | add => exact .sum (.inl rfl) hx ht hy
  | sub => exact .sum (.inr rfl) hx ht hy
  | mul => exact .product (.inl rfl) hx ht hy
  | div => exact .product (.inr rfl) hx ht hy
  | pow => exact .power hx ht hy

/-- Induction over a derivation in which all operators are one case, and all passages to a looser
level are one. -/
@[elab_as_elim]
theorem operatorInduction
    {motive : (level : Level) → (tokens : List Token) → (e : Expr) → Derives level tokens e → Prop}
    (literal : ∀ {t : Token} (ht : t.isLiteral), motive _ _ _ (.literal ht))
    (signed : ∀ {signs : List Token} {t : Token} (hne : signs ≠ [])
      (hsigns : ∀ s ∈ signs, s.sign?.isSome) (ht : t.isLiteral),
      motive _ _ _ (.signed hne hsigns ht))
    (group : ∀ {opening closing : Token} {tokens : List Token} {e : Expr}
      (hopening : opening.isOpening) (h : Derives .sum tokens e) (hclosing : closing.isClosing),
      motive _ _ _ h → motive _ _ _ (.group hopening h hclosing))
    (loosen : ∀ {level level' : Level} {tokens : List Token} {e : Expr}
      (h : Derives level tokens e) (hle : level'.precedence ≤ level.precedence),
      motive _ _ _ h → motive _ _ _ (h.mono hle))
    (binary : ∀ (op : Operator) {left right : List Token} {t : Token} {x y : Expr}
      (hx : Derives op.leftLevel left x) (ht : t.isOperator op)
      (hy : Derives op.rightLevel right y),
      motive _ _ _ hx → motive _ _ _ hy → motive _ _ _ (.binary hx ht hy))
    (h : Derives level tokens e) :
  motive level tokens e h
  := by
  induction h with
  | literal ht => apply literal ht
  | signed hne hsigns ht => apply signed hne hsigns ht
  | group hopening h hclosing ih => apply group hopening h hclosing ih
  | ofFactor h ih | ofPower h ih | ofProduct h ih => apply loosen h (by decide) ih
  | power hx ht hy ihx ihy => apply binary .pow hx ht hy ihx ihy
  | product hop hx ht hy ihx ihy =>
    rcases hop with rfl | rfl
    · apply binary .mul hx ht hy ihx ihy
    · apply binary .div hx ht hy ihx ihy
  | sum hop hx ht hy ihx ihy =>
    rcases hop with rfl | rfl
    · apply binary .add hx ht hy ihx ihy
    · apply binary .sub hx ht hy ihx ihy

/-- A group of an operator with factors. -/
theorem groupBinary {op : Operator} {left right : List Token} {opening t closing : Token}
    {x y : Expr} (hopening : opening.isOpening) (hx : Derives .factor left x)
    (ht : t.isOperator op) (hy : Derives .factor right y) (hclosing : closing.isClosing) :
  Derives .factor (opening :: (left ++ t :: right) ++ [closing]) (.binary op x y)
  := by
  apply Derives.group hopening _ hclosing
  apply (Derives.binary _ ht _).mono op.level.precedence_sum_le
  · apply hx.mono op.leftLevel.precedence_le_factor
  · apply hy.mono op.rightLevel.precedence_le_factor

end Derives

/-! ### Positions -/

/-- A token without its position. -/
def Token.word (t : Token) : Token.Kind × String :=
  (t.kind, t.text)

namespace Token

variable {t u : Token}

theorem sign?_eq_of_word_eq (h : t.word = u.word) :
  t.sign? = u.sign?
  := by
  obtain ⟨hkind, htext⟩ := Prod.mk.inj h
  rw [sign?, sign?, hkind, htext]

theorem isLiteral_eq_of_word_eq (h : t.word = u.word) :
  t.isLiteral = u.isLiteral
  := by
  obtain ⟨hkind, -⟩ := Prod.mk.inj h
  rw [isLiteral, isLiteral, hkind]

theorem isOpening_eq_of_word_eq (h : t.word = u.word) :
  t.isOpening = u.isOpening
  := by
  obtain ⟨hkind, htext⟩ := Prod.mk.inj h
  rw [isOpening, isOpening, hkind, htext]

theorem isClosing_eq_of_word_eq (h : t.word = u.word) :
  t.isClosing = u.isClosing
  := by
  obtain ⟨hkind, htext⟩ := Prod.mk.inj h
  rw [isClosing, isClosing, hkind, htext]

theorem isOperator_of_word_eq {op : Operator} (h : t.word = u.word) (hu : u.isOperator op) :
  t.isOperator op
  := by
  obtain ⟨hkind, htext⟩ := Prod.mk.inj h
  exact ⟨hkind.trans hu.1, htext.trans hu.2⟩

theorem all_sign?_of_map_word_eq {signs signs' : List Token}
    (h : signs'.map word = signs.map word) (hsigns : ∀ s ∈ signs, s.sign?.isSome) :
  ∀ s ∈ signs', s.sign?.isSome
  := by
  intro s hs
  obtain ⟨u, hu, hword⟩ := List.mem_map.mp (h ▸ List.mem_map_of_mem hs)
  rw [← sign?_eq_of_word_eq hword]
  apply hsigns u hu

/-- Tokens that agree with an operator between its operands are so divided themselves. -/
theorem exists_of_map_word_eq {tokens left right : List Token}
    (h : tokens.map word = (left ++ t :: right).map word) :
  ∃ left' u right', tokens = left' ++ u :: right' ∧ left'.map word = left.map word
    ∧ u.word = t.word ∧ right'.map word = right.map word
  := by
  rw [List.map_append, List.map_cons] at h
  obtain ⟨left', rest, rfl, hleft, hrest⟩ := List.map_eq_append_iff.mp h
  obtain ⟨u, right', rfl, hu, hright⟩ := List.map_eq_cons_iff.mp hrest
  exact ⟨left', u, right', rfl, hleft, hu, hright⟩

end Token

theorem negativeSigns_congr {signs signs' : List Token}
    (h : signs'.map Token.word = signs.map Token.word) :
  negativeSigns signs' = negativeSigns signs
  := by
  have hcount : signs'.countP (fun t => t.sign? = some true)
      = signs.countP (fun t => t.sign? = some true) := by
    induction signs' generalizing signs with
    | nil => rw [List.map_eq_nil_iff.mp h.symm]
    | cons s signs' ih =>
      obtain ⟨u, us, rfl, hu, hus⟩ := List.map_eq_cons_iff.mp h.symm
      rw [List.countP_cons, List.countP_cons, ih hus.symm, Token.sign?_eq_of_word_eq hu]
  rw [negativeSigns, negativeSigns, hcount]

/-- A derivation is one of all tokens that differ in their positions only. -/
theorem Derives.congr {level : Level} {tokens tokens' : List Token} {e : Expr}
    (h : Derives level tokens e) (hsame : tokens'.map Token.word = tokens.map Token.word) :
  Derives level tokens' e
  := by
  induction h using operatorInduction generalizing tokens' with
  | literal ht =>
    obtain ⟨u, rfl, hu⟩ := List.map_eq_singleton_iff.mp hsame
    obtain ⟨hkind, htext⟩ := Prod.mk.inj hu
    rw [← hkind, ← htext]
    apply Derives.literal
    rw [Token.isLiteral_eq_of_word_eq hu, ht]
  | signed hne hsigns ht =>
    rw [List.map_append] at hsame
    obtain ⟨signs, last, rfl, hs, hlast⟩ := List.map_eq_append_iff.mp hsame
    obtain ⟨u, rfl, hu⟩ := List.map_eq_singleton_iff.mp hlast
    obtain ⟨hkind, htext⟩ := Prod.mk.inj hu
    rw [← hkind, ← htext, ← negativeSigns_congr hs]
    apply Derives.signed
    · rintro rfl
      apply hne (List.map_eq_nil_iff.mp hs.symm)
    · apply Token.all_sign?_of_map_word_eq hs hsigns
    · rw [Token.isLiteral_eq_of_word_eq hu, ht]
  | group hopening _ hclosing ih =>
    rw [List.cons_append, List.map_cons, List.map_append] at hsame
    obtain ⟨u, rest, rfl, hu, hrest⟩ := List.map_eq_cons_iff.mp hsame
    obtain ⟨inner, last, rfl, hinner, hlast⟩ := List.map_eq_append_iff.mp hrest
    obtain ⟨v, rfl, hv⟩ := List.map_eq_singleton_iff.mp hlast
    apply Derives.group
    · rw [Token.isOpening_eq_of_word_eq hu, hopening]
    · apply ih hinner
    · rw [Token.isClosing_eq_of_word_eq hv, hclosing]
  | loosen _ hle ih => apply (ih hsame).mono hle
  | binary op _ ht _ ihx ihy =>
    obtain ⟨left, u, right, rfl, hleft, hu, hright⟩ := Token.exists_of_map_word_eq hsame
    apply Derives.binary (ihx hleft) (Token.isOperator_of_word_eq hu ht) (ihy hright)

end Abacus
