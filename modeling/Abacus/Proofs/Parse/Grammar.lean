import Abacus.Proofs.Expr.Levels
import Abacus.Proofs.Parse.Reading

/-!
# The grammar read by drafts

What a draft has taken is a prefix of a derivation, `Draft.Spans`: the tokens of the open groups,
of the waiting operators with their left operands, and of the operand that is next. Every token
taken keeps this, `Draft.Spans.step`, so a complete draft has taken the tokens of its expression.
Conversely a draft that waits for an operand takes all tokens of a derivation,
`Draft.reads_of_derives`, if no waiting operator binds more tightly than the level of the
derivation. Together they say that the tokens read as an expression are those that derive it,
`parse_eq_ok_iff_derives`.
-/

namespace Abacus

/-! ### Settling operators -/

/-- The operand closed by waiting operators, innermost first. -/
def closeAll (operand : Expr) (inner : List Pending) : Expr :=
  inner.foldl (fun e p => .binary p.op p.left e) operand

/-- Settling begins with the innermost operators, as long as they bind more tightly than the
bound. -/
theorem settle_append {bound : Nat} (operand : Expr) {inner : List Pending}
    (outer : List Pending) (h : ∀ p ∈ inner, bound < p.op.rightMinimum) :
  (settle bound operand (inner ++ outer)).operand
      = (settle bound (closeAll operand inner) outer).operand
    ∧ (settle bound operand (inner ++ outer)).pending
      = (settle bound (closeAll operand inner) outer).pending
  := by
  induction inner generalizing operand with
  | nil => exact ⟨rfl, rfl⟩
  | cons p inner ih =>
    rw [List.cons_append, settle, if_pos (h p List.mem_cons_self)]
    apply ih _ fun q hq => h q (List.mem_cons_of_mem p hq)

/-- Operators that bind no more tightly than the bound stay. -/
theorem settle_of_head {bound : Nat} (operand : Expr) {pending : List Pending}
    (h : ∀ p ∈ pending.head?, p.op.rightMinimum ≤ bound) :
  (settle bound operand pending).operand = operand
    ∧ (settle bound operand pending).pending = pending
  := by
  cases pending with
  | nil => exact ⟨rfl, rfl⟩
  | cons p pending =>
    rw [settle, if_neg (Nat.not_lt.mpr (h p rfl))]
    exact ⟨rfl, rfl⟩

/-- The end settles every operator. -/
theorem settle_zero (operand : Expr) (pending : List Pending) :
  (settle 0 operand pending).operand = closeAll operand pending
    ∧ (settle 0 operand pending).pending = []
  := by
  have hpos : ∀ p ∈ pending, 0 < p.op.rightMinimum := fun p _ =>
    Nat.lt_of_lt_of_le p.op.precedence_pos p.op.precedence_le_rightMinimum
  simpa [settle] using settle_append operand [] hpos

/-! ### Derivations are read -/

theorem sign?_of_isLiteral {t : Token} (ht : t.isLiteral) :
  t.sign? = none
  := by
  have hkind : t.kind ≠ .operator := by
    intro h
    simp [Token.isLiteral, h] at ht
  rw [Token.sign?, if_neg hkind]

theorem sign?_of_isOpening {t : Token} (ht : t.isOpening) :
  t.sign? = none
  := by
  have hkind : t.kind ≠ .operator := by
    intro h
    simp [Token.isOpening, h] at ht
  rw [Token.sign?, if_neg hkind]

theorem isLiteral_of_isOpening {t : Token} (ht : t.isOpening) :
  t.isLiteral = false
  := by
  have hkind : t.kind = .parenthesis := by
    simp only [Token.isOpening, Bool.and_eq_true, decide_eq_true_eq] at ht
    apply ht.1
  simp [Token.isLiteral, hkind]

theorem kind_of_isClosing {t : Token} (ht : t.isClosing) :
  t.kind = .parenthesis
  := by
  simp only [Token.isClosing, Bool.and_eq_true, decide_eq_true_eq] at ht
  apply ht.1

theorem negativeSigns_append (signs signs' : List Token) :
  negativeSigns (signs ++ signs') = (negativeSigns signs ^^ negativeSigns signs')
  := by
  rw [negativeSigns, negativeSigns, negativeSigns, List.countP_append, Nat.add_mod]
  generalize signs.countP _ = m
  generalize signs'.countP _ = n
  rcases Nat.mod_two_eq_zero_or_one m with hm | hm <;>
    rcases Nat.mod_two_eq_zero_or_one n with hn | hn <;> rw [hm, hn] <;> rfl

theorem negativeSigns_singleton {s : Token} {negative : Bool} (hs : s.sign? = some negative) :
  negativeSigns [s] = negative
  := by
  rw [negativeSigns, List.countP_singleton, hs]
  cases negative <;> rfl

theorem negativeSigns_cons {s : Token} {negative : Bool} (hs : s.sign? = some negative)
    (signs : List Token) :
  negativeSigns (s :: signs) = (negative ^^ negativeSigns signs)
  := by
  rw [← List.singleton_append, negativeSigns_append, negativeSigns_singleton hs]

namespace Draft

variable {pending : List Pending} {groups : List (List Pending)} {t : Token}

theorem extend_literal (ht : t.isLiteral) :
  extend .whole ⟨.operand, pending, groups⟩ [t]
    = some ⟨.after (.literal t.kind t.text), pending, groups⟩
  := by
  apply extend_cons_of_take
  simp only [step, stepOperand, sign?_of_isLiteral ht, ht, if_true]

theorem extend_signs_of_signed {signs : List Token} {negative : Bool}
    (hsigns : ∀ s ∈ signs, s.sign?.isSome) :
  extend .whole ⟨.signed negative, pending, groups⟩ signs
    = some ⟨.signed (negative ^^ negativeSigns signs), pending, groups⟩
  := by
  induction signs generalizing negative with
  | nil => simp [extend, negativeSigns]
  | cons s signs ih =>
    obtain ⟨more, hs⟩ := Option.isSome_iff_exists.mp (hsigns s List.mem_cons_self)
    have htake : (step .whole ⟨.signed negative, pending, groups⟩ s).move
        = .take ⟨.signed (negative ^^ more), pending, groups⟩ := by
      simp only [step, stepSigned, hs]
    rw [extend_cons_of_take _ htake, ih fun u hu => hsigns u (List.mem_cons_of_mem s hu),
      negativeSigns_cons hs, Bool.xor_assoc]

theorem extend_signed {signs : List Token} (hne : signs ≠ [])
    (hsigns : ∀ s ∈ signs, s.sign?.isSome) (ht : t.isLiteral) :
  extend .whole ⟨.operand, pending, groups⟩ (signs ++ [t])
    = some ⟨.after (.literal t.kind (signedText (negativeSigns signs) t.text)), pending, groups⟩
  := by
  obtain ⟨s, signs, rfl⟩ := List.exists_cons_of_ne_nil hne
  obtain ⟨negative, hs⟩ := Option.isSome_iff_exists.mp (hsigns s List.mem_cons_self)
  have hfirst : (step .whole ⟨.operand, pending, groups⟩ s).move
      = .take ⟨.signed negative, pending, groups⟩ := by
    simp only [step, stepOperand, hs]
  have hrest : extend .whole ⟨.signed negative, pending, groups⟩ signs
      = some ⟨.signed (negative ^^ negativeSigns signs), pending, groups⟩ :=
    extend_signs_of_signed fun u hu => hsigns u (List.mem_cons_of_mem s hu)
  rw [List.cons_append, extend_cons_of_take _ hfirst, extend_append_of_eq_some _ hrest,
    ← negativeSigns_cons hs]
  apply extend_cons_of_take
  simp only [step, stepSigned, sign?_of_isLiteral ht, ht, if_true]

theorem extend_opening (ht : t.isOpening) (tokens : List Token) :
  extend .whole ⟨.operand, pending, groups⟩ (t :: tokens)
    = extend .whole ⟨.operand, [], pending :: groups⟩ tokens
  := by
  apply extend_cons_of_take
  simp [step, stepOperand, sign?_of_isOpening ht, isLiteral_of_isOpening ht, ht]

theorem extend_closing {operand : Expr} {inner : List Pending} (ht : t.isClosing) :
  extend .whole ⟨.after operand, inner, pending :: groups⟩ [t]
    = some ⟨.after (closeAll operand inner), pending, groups⟩
  := by
  apply extend_cons_of_take
  have hkind := kind_of_isClosing ht
  simp [step, stepAfter, stepEnd, hkind, ht, settle_zero]

/-- An operator settles the waiting operators that bind more tightly than it, and waits. -/
theorem extend_operator {operand : Expr} {inner : List Pending} {op : Operator}
    (ht : t.isOperator op) (hinner : ∀ p ∈ inner, op.precedence < p.op.rightMinimum)
    (hpending : ∀ p ∈ pending.head?, p.op.rightMinimum ≤ op.precedence) :
  extend .whole ⟨.after operand, inner ++ pending, groups⟩ [t]
    = some ⟨.operand, ⟨op, closeAll operand inner⟩ :: pending, groups⟩
  := by
  apply extend_cons_of_take
  obtain ⟨hoperand, hrest⟩ := settle_append operand pending hinner
  obtain ⟨hoperand', hrest'⟩ := settle_of_head (closeAll operand inner) hpending
  have hop : Operator.ofSymbol? t.text = some op := Operator.ofSymbol?_eq_some_iff.mpr ht.2
  simp only [step, stepAfter, ht.1, hop, stepOperator, if_true, hoperand, hrest, hoperand',
    hrest']

/-- A draft that waits for an operand takes the tokens, unless the innermost waiting operator
binds more tightly than the level, and what it waits for afterwards, down to where it began,
amounts to the expression. -/
def Reads (level : Level) (tokens : List Token) (e : Expr) : Prop :=
  ∀ (pending : List Pending) (groups : List (List Pending)),
    (∀ p ∈ pending.head?, p.op.rightMinimum ≤ level.precedence) →
    ∃ operand inner,
      extend .whole ⟨.operand, pending, groups⟩ tokens
          = some ⟨.after operand, inner ++ pending, groups⟩
        ∧ closeAll operand inner = e ∧ ∀ p ∈ inner, level.precedence ≤ p.op.precedence

/-- A part read at a level is read at every looser one. -/
theorem Reads.mono {level level' : Level} {tokens : List Token} {e : Expr}
    (h : Reads level tokens e) (hle : level'.precedence ≤ level.precedence) :
  Reads level' tokens e
  := by
  intro pending groups hpending
  obtain ⟨operand, inner, hextend, he, hinner⟩ :=
    h pending groups fun p hp => Nat.le_trans (hpending p hp) hle
  exact ⟨operand, inner, hextend, he, fun p hp => Nat.le_trans hle (hinner p hp)⟩

/-- An operator between two parts that are taken waits, with the left one closed, around what the
right one leaves. -/
theorem extend_binary {operand operand' : Expr} {inner inner' : List Pending} {op : Operator}
    {left right : List Token}
    (hleft : extend .whole ⟨.operand, pending, groups⟩ left
      = some ⟨.after operand, inner ++ pending, groups⟩)
    (hinner : ∀ p ∈ inner, op.leftLevel.precedence ≤ p.op.precedence) (ht : t.isOperator op)
    (hpending : ∀ p ∈ pending.head?, p.op.rightMinimum ≤ op.precedence)
    (hright : extend .whole ⟨.operand, ⟨op, closeAll operand inner⟩ :: pending, groups⟩ right
      = some ⟨.after operand', inner' ++ ⟨op, closeAll operand inner⟩ :: pending, groups⟩) :
  extend .whole ⟨.operand, pending, groups⟩ (left ++ t :: right)
    = some ⟨.after operand', (inner' ++ [⟨op, closeAll operand inner⟩]) ++ pending, groups⟩
  := by
  have hop : extend .whole ⟨.after operand, inner ++ pending, groups⟩ [t]
      = some ⟨.operand, ⟨op, closeAll operand inner⟩ :: pending, groups⟩ :=
    extend_operator ht (fun p hp => Operator.precedence_lt_rightMinimum (hinner p hp)) hpending
  rw [extend_append_of_eq_some _ hleft, ← List.singleton_append, extend_append_of_eq_some _ hop,
    hright, List.append_assoc, List.singleton_append]

/-- The operator that waits around a right part lets every operator of that part be read. -/
theorem rightMinimum_le_of_mem_head? {op : Operator} {x : Expr} :
  ∀ p ∈ (⟨op, x⟩ :: pending : List Pending).head?, p.op.rightMinimum ≤ op.rightLevel.precedence
  := by
  intro p hp
  obtain rfl := Option.mem_some_iff.mp hp
  apply Nat.le_of_eq op.precedence_rightLevel.symm

/-- The operators that wait behind the right part, and the one in front of it, bind at least as
tightly as that one. -/
theorem precedence_le_of_mem_append {op : Operator} {x : Expr} {inner : List Pending}
    (hinner : ∀ p ∈ inner, op.rightLevel.precedence ≤ p.op.precedence) :
  ∀ p ∈ inner ++ [⟨op, x⟩], op.precedence ≤ p.op.precedence
  := by
  intro p hp
  rcases List.mem_append.mp hp with hp | hp
  · have hle := hinner p hp
    rw [Operator.precedence_rightLevel] at hle
    apply Nat.le_trans op.precedence_le_rightMinimum hle
  · obtain rfl := List.mem_singleton.mp hp
    apply Nat.le_refl

theorem closeAll_append_singleton (operand : Expr) (inner : List Pending) (p : Pending) :
  closeAll operand (inner ++ [p]) = .binary p.op p.left (closeAll operand inner)
  := by
  rw [closeAll, List.foldl_append]
  rfl

/-- An operator between two parts that are read is read. -/
theorem Reads.binary (op : Operator) {left right : List Token} {x y : Expr}
    (hx : Reads op.leftLevel left x) (ht : t.isOperator op) (hy : Reads op.rightLevel right y) :
  Reads op.level (left ++ t :: right) (.binary op x y)
  := by
  intro pending groups hpending
  rw [Operator.precedence_level] at hpending ⊢
  obtain ⟨operand, inner, hleft, rfl, hinner⟩ :=
    hx pending groups fun p hp => Nat.le_trans (hpending p hp) op.precedence_le_leftLevel
  obtain ⟨operand', inner', hright, rfl, hinner'⟩ := hy _ groups rightMinimum_le_of_mem_head?
  refine ⟨operand', inner' ++ [⟨op, closeAll operand inner⟩], ?_, ?_, ?_⟩
  · apply extend_binary hleft hinner ht hpending hright
  · apply closeAll_append_singleton
  · apply precedence_le_of_mem_append hinner'

/-- A part in parentheses is read as an operand. -/
theorem Reads.group {opening closing : Token} {tokens : List Token} {e : Expr}
    (hopening : opening.isOpening) (h : Reads .sum tokens e) (hclosing : closing.isClosing) :
  Reads .factor (opening :: tokens ++ [closing]) e
  := by
  intro pending groups _
  obtain ⟨operand, inner, hinner, rfl, -⟩ := h [] (pending :: groups) nofun
  rw [List.append_nil] at hinner
  refine ⟨closeAll operand inner, [], ?_, rfl, nofun⟩
  rw [List.cons_append, extend_opening hopening, extend_append_of_eq_some _ hinner,
    extend_closing hclosing, List.nil_append]

/-- Every derivation is read. -/
theorem reads_of_derives {level : Level} {tokens : List Token} {e : Expr}
    (h : Derives level tokens e) :
  Reads level tokens e
  := by
  induction h using Derives.operatorInduction with
  | literal ht =>
    intro pending groups _
    exact ⟨_, [], extend_literal ht, rfl, nofun⟩
  | signed hne hsigns ht =>
    intro pending groups _
    exact ⟨_, [], extend_signed hne hsigns ht, rfl, nofun⟩
  | group hopening _ hclosing ih => apply Reads.group hopening ih hclosing
  | loosen _ hle ih => apply ih.mono hle
  | binary op _ ht _ ihx ihy => apply Reads.binary op ihx ht ihy

end Draft

/-! ### What has been read is derived -/

/-- The tokens of waiting operators with their left operands, the innermost of which comes
last. Every operator binds at least as tightly as the one around it lets it. -/
inductive PendingSpans : List Pending → List Token → Prop
  | nil : PendingSpans [] []
  | cons {p : Pending} {pending : List Pending} {tokens left : List Token} {t : Token}
      (h : PendingSpans pending tokens) (hleft : Derives p.op.leftLevel left p.left)
      (ht : t.isOperator p.op)
      (hhead : ∀ q ∈ pending.head?, q.op.rightMinimum ≤ p.op.precedence) :
      PendingSpans (p :: pending) (tokens ++ (left ++ [t]))

/-- The tokens of open groups, up to the opening of the innermost. -/
inductive GroupsSpan : List (List Pending) → List Token → Prop
  | nil : GroupsSpan [] []
  | cons {pending : List Pending} {groups : List (List Pending)} {tokens inside : List Token}
      {t : Token} (h : GroupsSpan groups tokens) (hinside : PendingSpans pending inside)
      (ht : t.isOpening) :
      GroupsSpan (pending :: groups) (tokens ++ (inside ++ [t]))

/-- The tokens of the operand that is next. -/
inductive PhaseSpans : Phase → List Token → Prop
  | operand : PhaseSpans .operand []
  | signed {signs : List Token} {negative : Bool} (hne : signs ≠ [])
      (hsigns : ∀ s ∈ signs, s.sign?.isSome) (h : negativeSigns signs = negative) :
      PhaseSpans (.signed negative) signs
  | after {tokens : List Token} {e : Expr} (h : Derives .factor tokens e) :
      PhaseSpans (.after e) tokens

/-- The tokens are those that the draft has taken. -/
inductive Draft.Spans : Draft → List Token → Prop
  | intro {phase : Phase} {pending : List Pending} {groups : List (List Pending)}
      {outside inside operand : List Token} (houtside : GroupsSpan groups outside)
      (hinside : PendingSpans pending inside) (hoperand : PhaseSpans phase operand) :
      Draft.Spans ⟨phase, pending, groups⟩ (outside ++ (inside ++ operand))

/-- Settling moves the tokens of the settled operators to the operand. The operand is a left
operand for every operator of the precedence that settles, and no operator that stays has to
be settled. -/
theorem PendingSpans.settled {pending : List Pending} {inside : List Token}
    (h : PendingSpans pending inside) (bound : Nat) {level : Level} {tokens : List Token} {e : Expr}
    (he : Derives level tokens e)
    (hhead : ∀ p ∈ pending.head?, p.op.rightMinimum ≤ level.precedence)
    (hlevel : ∀ op : Operator, op.precedence = bound →
      op.leftLevel.precedence ≤ level.precedence) :
  ∃ level' inside' tokens', inside ++ tokens = inside' ++ tokens'
    ∧ PendingSpans (settle bound e pending).pending inside'
    ∧ Derives level' tokens' (settle bound e pending).operand
    ∧ (∀ op : Operator, op.precedence = bound → op.leftLevel.precedence ≤ level'.precedence)
    ∧ ∀ p ∈ (settle bound e pending).pending.head?, p.op.rightMinimum ≤ bound
  := by
  induction h generalizing level tokens e with
  | nil => exact ⟨level, [], tokens, rfl, .nil, he, hlevel, nofun⟩
  | @cons p pending inside left t h hleft ht hrest ih =>
    by_cases hbound : bound < p.op.rightMinimum
    · rw [settle, if_pos hbound]
      have hright : Derives p.op.rightLevel tokens e := by
        apply he.mono
        rw [Operator.precedence_rightLevel]
        apply hhead p rfl
      have hwhole := Derives.binary hleft ht hright
      obtain ⟨level', inside', tokens', heq, hspans⟩ := ih hwhole
        (by rwa [Operator.precedence_level])
        (by
          intro op hop
          rw [Operator.precedence_level]
          apply Operator.precedence_leftLevel_le (hop ▸ hbound))
      refine ⟨level', inside', tokens', ?_, hspans⟩
      rw [← heq]
      simp
    · rw [settle, if_neg hbound]
      refine ⟨level, _, tokens, rfl, .cons h hleft ht hrest, he, hlevel, ?_⟩
      intro q hq
      obtain rfl := Option.mem_some_iff.mp hq
      apply Nat.le_of_not_lt hbound

/-- Behind an operand, the end settles everything to an expression. -/
theorem PendingSpans.derives {pending : List Pending} {inside tokens : List Token} {e : Expr}
    (h : PendingSpans pending inside) (he : Derives .factor tokens e) :
  Derives .sum (inside ++ tokens) (settle 0 e pending).operand
  := by
  obtain ⟨level, inside', tokens', heq, hspans, hderives, -⟩ := h.settled 0 he
    (fun p _ => by cases p.op <;> decide) (fun op _ => by cases op <;> decide)
  rw [(settle_zero e pending).2] at hspans
  cases hspans
  rw [heq]
  apply hderives.mono
  cases level <;> decide

namespace Draft.Spans

variable {goal : Goal} {d next : Draft} {phase : Phase} {pending : List Pending}
  {groups : List (List Pending)} {tokens outside inside operand : List Token} {t : Token}

theorem of_eq (houtside : GroupsSpan groups outside) (hinside : PendingSpans pending inside)
    (hoperand : PhaseSpans phase operand) (h : tokens = outside ++ (inside ++ operand)) :
  Draft.Spans ⟨phase, pending, groups⟩ tokens
  := by
  rw [h]
  apply Draft.Spans.intro houtside hinside hoperand

theorem empty :
  Draft.Spans {} []
  := Draft.Spans.intro .nil .nil .operand

/-- A token that begins an operand. -/
theorem stepOperand (houtside : GroupsSpan groups outside) (hinside : PendingSpans pending inside)
    (hmove : Draft.stepOperand ⟨.operand, pending, groups⟩ t = .take next) :
  next.Spans (outside ++ inside ++ [t])
  := by
  simp only [Draft.stepOperand] at hmove
  split at hmove
  · next negative hsign =>
    obtain rfl := Move.take.inj hmove
    have hsigns : ∀ s ∈ [t], s.sign?.isSome := by simp [hsign]
    apply of_eq houtside hinside
      (.signed (List.cons_ne_nil t []) hsigns (negativeSigns_singleton hsign))
    rw [List.append_assoc]
  · split at hmove
    · next hliteral =>
      obtain rfl := Move.take.inj hmove
      apply of_eq houtside hinside (.after (.literal hliteral))
      rw [List.append_assoc]
    · split at hmove
      · next hopening =>
        obtain rfl := Move.take.inj hmove
        apply of_eq (houtside.cons hinside hopening) .nil .operand
        simp
      · cases hmove

/-- A token behind the signs of an operand. -/
theorem stepSigned {negative : Bool} (houtside : GroupsSpan groups outside)
    (hinside : PendingSpans pending inside) (hoperand : PhaseSpans (.signed negative) operand)
    (hmove : Draft.stepSigned negative ⟨.signed negative, pending, groups⟩ t = .take next) :
  next.Spans (outside ++ (inside ++ operand) ++ [t])
  := by
  obtain ⟨hne, hsigns, rfl⟩ : operand ≠ [] ∧ (∀ s ∈ operand, s.sign?.isSome)
      ∧ negativeSigns operand = negative := by
    cases hoperand with
    | signed hne hsigns h => exact ⟨hne, hsigns, h⟩
  simp only [Draft.stepSigned] at hmove
  split at hmove
  · next more hsign =>
    obtain rfl := Move.take.inj hmove
    have hnegative : negativeSigns (operand ++ [t]) = (negativeSigns operand ^^ more) := by
      rw [negativeSigns_append, negativeSigns_singleton hsign]
    have hall : ∀ s ∈ operand ++ [t], s.sign?.isSome := by
      intro s hs
      rcases List.mem_append.mp hs with hs | hs
      · apply hsigns s hs
      · rw [List.mem_singleton.mp hs, hsign]
        rfl
    apply of_eq houtside hinside (.signed (by simp) hall hnegative)
    simp
  · split at hmove
    · next hliteral =>
      obtain rfl := Move.take.inj hmove
      apply of_eq houtside hinside (.after (.signed hne hsigns hliteral))
      simp
    · cases hmove

/-- An operator behind an operand. -/
theorem stepOperator {e : Expr} {op : Operator} (houtside : GroupsSpan groups outside)
    (hinside : PendingSpans pending inside) (he : Derives .factor operand e)
    (ht : t.isOperator op)
    (hmove : (Draft.stepOperator goal e ⟨.after e, pending, groups⟩ op).move = .take next) :
  next.Spans (outside ++ (inside ++ operand) ++ [t])
  := by
  obtain ⟨level, inside', operand', heq, hspans, hderives, hlevel, hhead⟩ :=
    hinside.settled op.precedence he (fun p _ => by cases p.op <;> decide)
      (fun op _ => by cases op <;> decide)
  have hleft := hderives.mono (hlevel op rfl)
  obtain rfl : ⟨.operand, ⟨op, (settle op.precedence e pending).operand⟩
      :: (settle op.precedence e pending).pending, groups⟩ = next := by
    simp only [Draft.stepOperator] at hmove
    split at hmove
    · split at hmove
      · cases hmove
      · apply Move.take.inj hmove
    · apply Move.take.inj hmove
  apply of_eq houtside (.cons hspans hleft ht hhead) .operand
  rw [heq]
  simp

/-- The closing of a group behind an operand. -/
theorem stepEnd {e : Expr} (houtside : GroupsSpan groups outside)
    (hinside : PendingSpans pending inside) (he : Derives .factor operand e)
    (hmove : (Draft.stepEnd goal e ⟨.after e, pending, groups⟩ t).move = .take next) :
  next.Spans (outside ++ (inside ++ operand) ++ [t])
  := by
  simp only [Draft.stepEnd] at hmove
  cases houtside with
  | nil =>
    dsimp only at hmove
    split at hmove <;> cases hmove
  | cons houtside hinside' hopening =>
    dsimp only at hmove
    split at hmove
    · next hclosing =>
      obtain rfl := Move.take.inj hmove
      apply of_eq houtside hinside' (.after (.group hopening (hinside.derives he) hclosing))
      simp
    · cases hmove

/-- A token taken is added to the tokens taken. -/
theorem step (h : d.Spans tokens) (hmove : (d.step goal t).move = .take next) :
  next.Spans (tokens ++ [t])
  := by
  cases h with
  | @intro phase pending groups outside inside operand houtside hinside hoperand =>
    cases hoperand with
    | operand =>
      rw [List.append_nil]
      apply stepOperand houtside hinside hmove
    | signed hne hsigns h => apply stepSigned houtside hinside (.signed hne hsigns h) hmove
    | after he =>
      simp only [Draft.step, stepAfter] at hmove
      split at hmove
      · next hkind =>
        split at hmove
        · cases hmove
        · next op hop =>
          have ht : t.isOperator op := ⟨hkind, Operator.ofSymbol?_eq_some_iff.mp hop⟩
          apply stepOperator houtside hinside he ht hmove
      · apply stepEnd houtside hinside he hmove

/-- The tokens that extend a draft are added to the tokens taken. -/
theorem extend {tokens' : List Token} (h : d.Spans tokens)
    (hextend : d.extend goal tokens' = some next) :
  next.Spans (tokens ++ tokens')
  := by
  induction tokens' generalizing d tokens with
  | nil =>
    obtain rfl := Option.some.inj hextend
    rw [List.append_nil]
    apply h
  | cons t tokens' ih =>
    simp only [Draft.extend] at hextend
    split at hextend
    · next hmove =>
      rw [List.append_cons]
      apply ih (h.step hmove) hextend
    · cases hextend

/-- A complete draft has taken the tokens of its expression. -/
theorem derives {e : Expr} (h : d.Spans tokens) (hcomplete : d.complete? = some e) :
  Derives .sum tokens e
  := by
  cases h with
  | @intro phase pending groups outside inside operand houtside hinside hoperand =>
    cases hoperand with
    | operand | signed => cases hcomplete
    | after he =>
      cases houtside with
      | nil =>
        obtain rfl := Option.some.inj hcomplete
        apply hinside.derives he
      | cons => cases hcomplete

end Draft.Spans

/-! ### The expressions of a supply of tokens -/

/-- A supply reads as the expressions that its tokens before the first marker of the end
derive. -/
theorem parse_eq_ok_iff_derives {σ : Type} [FiniteSupply σ] {s : σ} {tokens : List Token}
    (hgives : Gives s tokens) (e : Expr) :
  parse s = .ok e ↔ Derives .sum tokens e
  := by
  rw [parse, Goal.read_eq_goOn, result_goOn_eq_ok_iff hgives]
  constructor
  · rintro ⟨d, hextend, hcomplete⟩
    apply (Draft.Spans.empty.extend hextend).derives hcomplete
  · intro h
    obtain ⟨operand, inner, hextend, rfl, -⟩ := Draft.reads_of_derives h [] [] nofun
    refine ⟨_, hextend, ?_⟩
    rw [List.append_nil, Draft.complete?, (settle_zero operand inner).1]

/-- The grammar is unambiguous. -/
theorem Derives.unique {level level' : Level} {tokens : List Token} {e e' : Expr}
    (h : Derives level tokens e) (h' : Derives level' tokens e') :
  e = e'
  := by
  obtain ⟨operand, inner, hextend, rfl, -⟩ := Draft.reads_of_derives h [] [] nofun
  obtain ⟨operand', inner', hextend', rfl, -⟩ := Draft.reads_of_derives h' [] [] nofun
  rw [hextend] at hextend'
  simp only [List.append_nil] at hextend'
  injection hextend' with hdraft
  injection hdraft with hphase hpending
  injection hphase with hoperand
  rw [hoperand, hpending]

/-- A list of tokens reads as an expression exactly if its tokens before the first marker of the
end derive the expression. Neither their positions nor the tokens from that marker on have a
part in it. -/
theorem parseTokens_eq_ok_iff_derives (tokens : List Token) (e : Expr) :
  (parseTokens tokens = .ok e ↔ Derives .sum (beforeFinish tokens) e)
    ∧ ∀ tokens' : List Token,
      (beforeFinish tokens').map Token.word = (beforeFinish tokens).map Token.word →
      (parseTokens tokens' = .ok e ↔ parseTokens tokens = .ok e)
  := by
  have hderives : ∀ tokens' : List Token,
      parseTokens tokens' = .ok e ↔ Derives .sum (beforeFinish tokens') e := by
    intro tokens'
    apply parse_eq_ok_iff_derives
    apply TokenList.gives_beforeFinish
  constructor
  · apply hderives
  · intro tokens' hsame
    rw [hderives, hderives]
    constructor
    · intro h
      apply h.congr hsame.symm
    · intro h
      apply h.congr hsame

/-- The power `--x ^ (2 - 3 - -4)` is read from tokens at odd positions, with more tokens behind a
marker of the end, as it is from the tokens in their places. -/
theorem parseTokens_displaced_power :
  parseTokens [⟨.operator, "-", 9⟩, ⟨.operator, "-", 9⟩, ⟨.constant, "x", 9⟩,
      ⟨.operator, "^", 9⟩, ⟨.parenthesis, "(", 0⟩, ⟨.number, "2", 0⟩, ⟨.operator, "-", 0⟩,
      ⟨.number, "3", 0⟩, ⟨.operator, "-", 0⟩, ⟨.operator, "-", 5⟩, ⟨.number, "4", 5⟩,
      ⟨.parenthesis, ")", 5⟩, .finish 3, ⟨.unknown, "", 0⟩, ⟨.operator, "%", 1⟩]
    = .ok (.binary .pow (.literal .constant "+x")
        (.binary .sub (.binary .sub (.literal .number "2") (.literal .number "3"))
          (.literal .number "-4")))
  := by
  have hinPlace := parseTokens_eq_ok_iff_derives
    [⟨.operator, "-", 0⟩, ⟨.operator, "-", 1⟩, ⟨.constant, "x", 2⟩, ⟨.operator, "^", 4⟩,
      ⟨.parenthesis, "(", 6⟩, ⟨.number, "2", 7⟩, ⟨.operator, "-", 9⟩, ⟨.number, "3", 11⟩,
      ⟨.operator, "-", 13⟩, ⟨.operator, "-", 15⟩, ⟨.number, "4", 16⟩, ⟨.parenthesis, ")", 17⟩]
    (.binary .pow (.literal .constant "+x")
      (.binary .sub (.binary .sub (.literal .number "2") (.literal .number "3"))
        (.literal .number "-4")))
  apply (hinPlace.2 _ (by decide)).mpr
  rfl

end Abacus
