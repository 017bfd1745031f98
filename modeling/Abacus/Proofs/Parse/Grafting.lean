import Abacus.Expr.Evaluation
import Abacus.Expr.Leaves
import Abacus.Proofs.Parse.ViablePrefix

/-!
# Grafting expressions onto literals

The literals of an expression are those of its tokens, in order, `Derives.length_leaves`. If no sign
governs a literal of the tokens, an expression in parentheses may stand in its place, and is grafted
onto the literal of that number in the tree, `Derives.graft`: as a factor, it goes where a literal
goes, however weak its own operators are. The grafted tree has the value of the original one with
the value of the graft in the place of that of the literal, `Expr.valueM_graft`, where
`Expr.valueByLeafM` evaluates an expression with a value chosen for each literal. For lists of
tokens, `parseTokens_graft` says both.
-/

namespace Abacus

/-! ### Values by the number of the literal -/

namespace Expr

variable {m : Type → Type} [Monad m]

/-- The value of an operator from the values of its operands, the left one first. -/
def applyM (op : Operator) (left right : m (Except EvalError Float)) :
    m (Except EvalError Float) := do
  match ← left with
  | .error e => pure (.error e)
  | .ok x =>
    match ← right with
    | .error e => pure (.error e)
    | .ok y => pure (.ok (op.compute x y))

theorem valueM_binary (lookup : String → m (Option Float)) (op : Operator) (left right : Expr) :
  (binary op left right).valueM lookup = applyM op (left.valueM lookup) (right.valueM lookup)
  := rfl

/-- The value of an expression in which the literal number `n`, counted from the left, of the kind
`kind` and with the text `text` has the value `leaf n kind text`. -/
def valueByLeafM (leaf : Nat → Token.Kind → String → m (Except EvalError Float)) :
    Expr → m (Except EvalError Float)
  | literal kind text => leaf 0 kind text
  | binary op left right =>
    applyM op (left.valueByLeafM leaf)
      (right.valueByLeafM fun n => leaf (left.leaves.length + n))

/-- The value of an expression is the one by the values of its literals. -/
theorem valueM_eq_valueByLeafM (lookup : String → m (Option Float)) (e : Expr) :
  e.valueM lookup = e.valueByLeafM fun _ => literalValueM lookup
  := by
  induction e with
  | literal kind text => rfl
  | binary op left right ihleft ihright => rw [valueM_binary, valueByLeafM, ihleft, ihright]

/-- Only the literals of the expression matter. -/
theorem valueByLeafM_congr {e : Expr}
    {leaf leaf' : Nat → Token.Kind → String → m (Except EvalError Float)}
    (h : ∀ n < e.leaves.length, leaf n = leaf' n) :
  e.valueByLeafM leaf = e.valueByLeafM leaf'
  := by
  induction e generalizing leaf leaf' with
  | literal kind text => rw [valueByLeafM, valueByLeafM, h 0 Nat.one_pos]
  | binary op left right ihleft ihright =>
    rw [leaves, List.length_append] at h
    rw [valueByLeafM, valueByLeafM]
    have hleft : left.valueByLeafM leaf = left.valueByLeafM leaf' := by
      apply ihleft
      intro n hn
      apply h n (Nat.lt_add_right _ hn)
    have hright : (right.valueByLeafM fun n => leaf (left.leaves.length + n))
        = right.valueByLeafM fun n => leaf' (left.leaves.length + n) := by
      apply ihright
      intro n hn
      apply h _ (Nat.add_lt_add_left hn _)
    rw [hleft, hright]

/-- The value of a grafted tree is the one in which the literal has the value of the graft. -/
theorem valueM_graft (lookup : String → m (Option Float)) (e : Expr) (i : Nat) (a : Expr) :
  (e.graft i a).valueM lookup
    = e.valueByLeafM fun n kind text =>
        if n = i then a.valueM lookup else literalValueM lookup kind text
  := by
  induction e generalizing i with
  | literal kind text =>
    rw [graft, valueByLeafM]
    by_cases hi : i = 0
    · rw [if_pos hi, if_pos hi.symm]
    · rw [if_neg hi, if_neg (Ne.symm hi), valueM]
  | binary op left right ihleft ihright =>
    rw [graft, valueByLeafM]
    by_cases hi : i < left.leaves.length
    · have hright : right.valueM lookup = right.valueByLeafM fun n kind text =>
          if left.leaves.length + n = i then a.valueM lookup
          else literalValueM lookup kind text := by
        rw [valueM_eq_valueByLeafM]
        apply valueByLeafM_congr
        intro n _
        funext kind text
        rw [if_neg (Nat.ne_of_gt (Nat.lt_add_right n hi))]
      rw [if_pos hi, valueM_binary, ihleft, hright]
    · have hleft : left.valueM lookup = left.valueByLeafM fun n kind text =>
          if n = i then a.valueM lookup else literalValueM lookup kind text := by
        rw [valueM_eq_valueByLeafM]
        apply valueByLeafM_congr
        intro n hn
        funext kind text
        rw [if_neg (Nat.ne_of_lt (Nat.lt_of_lt_of_le hn (Nat.le_of_not_lt hi)))]
      have hshift : ∀ n, left.leaves.length + n = i ↔ n = i - left.leaves.length := by
        intro n
        omega
      simp only [if_neg hi, valueM_binary, hleft, ihright, hshift]

end Expr

/-! ### The literals of a derivation -/

theorem isLiteral_of_sign?_isSome {t : Token} (ht : t.sign?.isSome) :
  t.isLiteral = false
  := by
  rw [← Bool.not_eq_true]
  intro h
  rw [sign?_of_isLiteral h] at ht
  cases ht

theorem isLiteral_of_isClosing {t : Token} (ht : t.isClosing) :
  t.isLiteral = false
  := by
  rw [Token.isLiteral, kind_of_isClosing ht]
  rfl

theorem isLiteral_of_isOperator {op : Operator} {t : Token} (ht : t.isOperator op) :
  t.isLiteral = false
  := by
  rw [Token.isLiteral, ht.1]
  rfl

theorem countP_isLiteral_of_signs {signs : List Token} (h : ∀ s ∈ signs, s.sign?.isSome) :
  signs.countP Token.isLiteral = 0
  := by
  rw [List.countP_eq_zero]
  intro s hs
  rw [isLiteral_of_sign?_isSome (h s hs)]
  apply Bool.false_ne_true

/-- An expression has as many literals as its tokens. -/
theorem Derives.length_leaves {level : Level} {tokens : List Token} {e : Expr}
    (h : Derives level tokens e) :
  e.leaves.length = tokens.countP Token.isLiteral
  := by
  induction h using operatorInduction with
  | literal ht => rw [List.countP_singleton, if_pos ht, Expr.leaves, List.length_singleton]
  | signed _ hsigns ht =>
    rw [List.countP_append, countP_isLiteral_of_signs hsigns, List.countP_singleton, if_pos ht,
      Expr.leaves, List.length_singleton]
  | group hopening _ hclosing ih =>
    rw [List.cons_append, List.countP_cons, List.countP_append, List.countP_singleton,
      isLiteral_of_isOpening hopening, isLiteral_of_isClosing hclosing, ih]
    rfl
  | loosen _ _ ih => apply ih
  | binary _ _ ht _ ihx ihy =>
    rw [Expr.leaves, List.length_append, List.countP_append, List.countP_cons,
      isLiteral_of_isOperator ht, ihx, ihy]
    rfl

/-- A literal among tokens around another one stands on one side of that one. -/
theorem Token.exists_of_append_eq {left right us vs : List Token} {t k : Token}
    (ht : t.isLiteral = false) (hk : k.isLiteral) (h : left ++ t :: right = us ++ k :: vs) :
  (∃ vs', left = us ++ k :: vs' ∧ vs = vs' ++ t :: right)
    ∨ ∃ us', us = left ++ t :: us' ∧ right = us' ++ k :: vs
  := by
  have hne : t ≠ k := by
    rintro rfl
    rw [ht] at hk
    cases hk
  rcases List.append_eq_append_iff.mp h with ⟨us', hus, hright⟩ | ⟨vs', hleft, hvs⟩
  · rcases us' with _ | ⟨u, us'⟩
    · apply absurd (List.cons.inj hright).1 hne
    · obtain ⟨rfl, htail⟩ := List.cons.inj hright
      right
      exact ⟨us', hus, htail⟩
  · rcases vs' with _ | ⟨v, vs'⟩
    · apply absurd (List.cons.inj hvs).1.symm hne
    · obtain ⟨rfl, htail⟩ := List.cons.inj hvs
      left
      exact ⟨vs', hleft, htail⟩

theorem signedText_ne (negative : Bool) (text : String) :
  signedText negative text ≠ text
  := by
  intro h
  have hlength := congrArg String.length h
  rw [signedText, String.length_append] at hlength
  cases negative with
  | true | false => simp at hlength

/-! ### Grafting onto a literal of the tokens -/

/-- What derives a factor may stand in the place of a literal that no sign governs. -/
def Grafts (level : Level) (tokens : List Token) (e : Expr) : Prop :=
  ∀ (us vs factor : List Token) (k : Token) (a : Expr), tokens = us ++ k :: vs → k.isLiteral →
    e.leaves[us.countP Token.isLiteral]? = some (k.kind, k.text) → Derives .factor factor a →
    Derives level (us ++ factor ++ vs) (e.graft (us.countP Token.isLiteral) a)

namespace Grafts

theorem literal {t : Token} :
  Grafts .factor [t] (.literal t.kind t.text)
  := by
  intro us vs factor k a hsplit _ _ ha
  rcases us with _ | ⟨u, us⟩
  · obtain ⟨rfl, rfl⟩ := List.cons.inj hsplit
    rw [List.nil_append, List.append_nil]
    apply ha
  · obtain ⟨-, hnil⟩ := List.cons.inj hsplit
    cases List.append_ne_nil_of_right_ne_nil us (List.cons_ne_nil k vs) hnil.symm

/-- The text of a literal behind signs is not that of the token. -/
theorem signed {signs : List Token} {t : Token} (hsigns : ∀ s ∈ signs, s.sign?.isSome) :
  Grafts .factor (signs ++ [t]) (.literal t.kind (signedText (negativeSigns signs) t.text))
  := by
  intro us vs factor k a hsplit hk hleaf _
  have hcount : us.countP Token.isLiteral = 0 ∧ k = t := by
    rcases List.append_eq_append_iff.mp hsplit with ⟨us', hus, ht⟩ | ⟨vs', hleft, hvs⟩
    · rcases us' with _ | ⟨u, us'⟩
      · rw [hus, List.append_nil]
        exact ⟨countP_isLiteral_of_signs hsigns, (List.cons.inj ht).1.symm⟩
      · obtain ⟨-, hnil⟩ := List.cons.inj ht
        cases List.append_ne_nil_of_right_ne_nil us' (List.cons_ne_nil k vs) hnil.symm
    · rcases vs' with _ | ⟨v, vs'⟩
      · obtain rfl : signs = us := by simpa using hleft
        exact ⟨countP_isLiteral_of_signs hsigns, (List.cons.inj hvs).1⟩
      · obtain ⟨rfl, -⟩ := List.cons.inj hvs
        have hsign := hsigns k (by simp [hleft])
        rw [isLiteral_of_sign?_isSome hsign] at hk
        cases hk
  obtain ⟨hcount, rfl⟩ := hcount
  rw [hcount] at hleaf
  apply absurd (Prod.mk.inj (Option.some.inj hleaf)).2 (signedText_ne _ _)

theorem group {opening closing : Token} {tokens : List Token} {e : Expr}
    (hopening : opening.isOpening) (h : Grafts .sum tokens e) (hclosing : closing.isClosing) :
  Grafts .factor (opening :: tokens ++ [closing]) e
  := by
  intro us vs factor k a hsplit hk hleaf ha
  rcases Token.exists_of_append_eq (isLiteral_of_isClosing hclosing) hk hsplit with
    ⟨vs', hinside, rfl⟩ | ⟨us', -, hnil⟩
  · have hinside' : [] ++ opening :: tokens = us ++ k :: vs' := hinside
    rcases Token.exists_of_append_eq (isLiteral_of_isOpening hopening) hk hinside' with
      ⟨vs'', hnil, -⟩ | ⟨us', rfl, hinside''⟩
    · cases List.append_ne_nil_of_right_ne_nil us (List.cons_ne_nil k vs'') hnil.symm
    · rw [List.nil_append, List.countP_cons, isLiteral_of_isOpening hopening] at hleaf ⊢
      have hgraft := Derives.group hopening (h us' vs' factor k a hinside'' hk hleaf ha) hclosing
      simpa using hgraft
  · cases List.append_ne_nil_of_right_ne_nil us' (List.cons_ne_nil k vs) hnil.symm

theorem loosen {level level' : Level} {tokens : List Token} {e : Expr}
    (h : Grafts level tokens e) (hle : level'.precedence ≤ level.precedence) :
  Grafts level' tokens e
  := by
  intro us vs factor k a hsplit hk hleaf ha
  apply (h us vs factor k a hsplit hk hleaf ha).mono hle

theorem binary (op : Operator) {left right : List Token} {t : Token} {x y : Expr}
    (hx : Derives op.leftLevel left x) (hgraftx : Grafts op.leftLevel left x)
    (ht : t.isOperator op) (hy : Derives op.rightLevel right y)
    (hgrafty : Grafts op.rightLevel right y) :
  Grafts op.level (left ++ t :: right) (.binary op x y)
  := by
  intro us vs factor k a hsplit hk hleaf ha
  rw [Expr.leaves] at hleaf
  rcases Token.exists_of_append_eq (isLiteral_of_isOperator ht) hk hsplit with
    ⟨vs', rfl, rfl⟩ | ⟨us', rfl, rfl⟩
  · have hlt : us.countP Token.isLiteral < x.leaves.length := by
      rw [hx.length_leaves, List.countP_append, List.countP_cons, if_pos hk]
      omega
    rw [List.getElem?_append_left hlt] at hleaf
    rw [Expr.graft, if_pos hlt, ← List.append_assoc]
    apply Derives.binary (hgraftx us vs' factor k a rfl hk hleaf ha) ht hy
  · have hcount : (left ++ t :: us').countP Token.isLiteral
        = x.leaves.length + us'.countP Token.isLiteral := by
      rw [List.countP_append, List.countP_cons, isLiteral_of_isOperator ht, hx.length_leaves]
      rfl
    rw [hcount, List.getElem?_append_right (Nat.le_add_right _ _), Nat.add_sub_cancel_left]
      at hleaf
    rw [hcount, Expr.graft, if_neg (Nat.not_lt.mpr (Nat.le_add_right _ _)),
      Nat.add_sub_cancel_left, List.append_assoc, List.append_assoc, List.cons_append,
      ← List.append_assoc us']
    apply Derives.binary hx ht (hgrafty us' vs factor k a rfl hk hleaf ha)

end Grafts

/-- A factor may stand in the place of a literal that no sign governs, and is grafted onto it. -/
theorem Derives.graft {level : Level} {tokens : List Token} {e : Expr}
    (h : Derives level tokens e) :
  Grafts level tokens e
  := by
  induction h using operatorInduction with
  | literal => apply Grafts.literal
  | signed _ hsigns => apply Grafts.signed hsigns
  | group hopening _ hclosing ih => apply Grafts.group hopening ih hclosing
  | loosen _ hle ih => apply ih.loosen hle
  | binary op hx ht hy ihx ihy => apply Grafts.binary op hx ihx ht hy ihy

/-! ### Lists of tokens -/

theorem not_isFinish_of_isLiteral {t : Token} (ht : t.isLiteral) :
  ¬ t.isFinish
  := by
  intro hfinish
  rw [Token.isLiteral, of_decide_eq_true hfinish] at ht
  cases ht

theorem not_isFinish_of_isOpening {t : Token} (ht : t.isOpening) :
  ¬ t.isFinish
  := by
  intro hfinish
  rw [Token.isOpening, of_decide_eq_true hfinish] at ht
  cases ht

theorem not_isFinish_of_isClosing {t : Token} (ht : t.isClosing) :
  ¬ t.isFinish
  := by
  intro hfinish
  rw [Token.isClosing, of_decide_eq_true hfinish] at ht
  cases ht

theorem beforeFinish_cons {t : Token} (ht : ¬ t.isFinish) (tokens : List Token) :
  beforeFinish (t :: tokens) = t :: beforeFinish tokens
  := by
  rw [beforeFinish, List.takeWhile_cons_of_pos (by simpa using ht), beforeFinish]

/-- An expression in parentheses may stand in the place of any literal of a list of tokens that no
sign governs. The list is then read as the tree with the expression in the place of that literal,
and the tree has the value of the original one with the value of the expression, or its error, in
the place of that of the literal. -/
theorem parseTokens_graft (us vs inside : List Token) (k opening closing : Token) (e a : Expr)
    (hus : ∀ u ∈ us, ¬ u.isFinish) (hinside : ∀ u ∈ inside, ¬ u.isFinish) (hk : k.isLiteral)
    (hopening : opening.isOpening) (hclosing : closing.isClosing)
    (he : parseTokens (us ++ k :: vs) = .ok e)
    (hleaf : e.leaves[us.countP Token.isLiteral]? = some (k.kind, k.text))
    (ha : parseTokens inside = .ok a) :
  parseTokens (us ++ opening :: inside ++ closing :: vs)
      = .ok (e.graft (us.countP Token.isLiteral) a)
    ∧ ∀ (m : Type → Type) [Monad m] (lookup : String → m (Option Float)),
      e.valueM lookup = e.valueByLeafM (fun _ => Expr.literalValueM lookup)
      ∧ (e.graft (us.countP Token.isLiteral) a).valueM lookup
        = e.valueByLeafM fun n kind text =>
            if n = us.countP Token.isLiteral then a.valueM lookup
            else Expr.literalValueM lookup kind text
  := by
  rw [(parseTokens_eq_ok_iff_derives _ _).1] at he ha ⊢
  rw [beforeFinish_append hus, beforeFinish_cons (not_isFinish_of_isLiteral hk)] at he
  rw [beforeFinish_of_all hinside] at ha
  constructor
  · rw [List.append_assoc, beforeFinish_append hus, List.cons_append,
      beforeFinish_cons (not_isFinish_of_isOpening hopening), beforeFinish_append hinside,
      beforeFinish_cons (not_isFinish_of_isClosing hclosing)]
    have hgraft := he.graft us _ _ k a rfl hk hleaf (.group hopening ha hclosing)
    rw [List.append_assoc, List.cons_append, List.cons_append, List.append_assoc,
      List.singleton_append] at hgraft
    apply hgraft
  · intro m _ lookup
    constructor
    · apply Expr.valueM_eq_valueByLeafM
    · apply Expr.valueM_graft

/-- In `x ^ k * -y` the sum `(1 - -2)` takes the place of the exponent `k`. -/
theorem parseTokens_graft_exponent :
  parseTokens ([⟨.constant, "x", 0⟩, ⟨.operator, "^", 1⟩] ++ ⟨.constant, "k", 2⟩
      :: [⟨.operator, "*", 3⟩, ⟨.operator, "-", 4⟩, ⟨.constant, "y", 5⟩])
    = .ok (.binary .mul (.binary .pow (.literal .constant "x") (.literal .constant "k"))
        (.literal .constant "-y"))
    ∧ parseTokens ([⟨.constant, "x", 0⟩, ⟨.operator, "^", 1⟩] ++ ⟨.parenthesis, "(", 2⟩
      :: [⟨.number, "1", 0⟩, ⟨.operator, "-", 1⟩, ⟨.operator, "-", 2⟩, ⟨.number, "2", 3⟩]
      ++ ⟨.parenthesis, ")", 9⟩
      :: [⟨.operator, "*", 3⟩, ⟨.operator, "-", 4⟩, ⟨.constant, "y", 5⟩])
    = .ok (.binary .mul (.binary .pow (.literal .constant "x")
          (.binary .sub (.literal .number "1") (.literal .number "-2")))
        (.literal .constant "-y"))
  := by
  have he : parseTokens ([⟨.constant, "x", 0⟩, ⟨.operator, "^", 1⟩] ++ ⟨.constant, "k", 2⟩
      :: [⟨.operator, "*", 3⟩, ⟨.operator, "-", 4⟩, ⟨.constant, "y", 5⟩])
      = .ok (.binary .mul (.binary .pow (.literal .constant "x") (.literal .constant "k"))
        (.literal .constant "-y")) := rfl
  constructor
  · apply he
  · exact (parseTokens_graft _ _ _ _ _ _ _ _ (by decide) (by decide) rfl rfl rfl he rfl rfl).1

end Abacus
