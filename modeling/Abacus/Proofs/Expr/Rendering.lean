import Mathlib
import Abacus.Proofs.Parse.Source

/-!
# Expressions rendered and read again

A readable expression is rendered as a text that splits into the tokens of a factor, whatever
follows it, `Expr.tokensOf_render`, as long as no number and no name goes on into that. So
rendering and reading are inverse on the readable expressions and on no others,
`parseText_render`.
-/

namespace Abacus

/-- No number and no name goes on into the characters. -/
def EndsRuns (chars : List Char) : Prop :=
  ∀ (kind : Token.Kind) (p : Char → Bool), kind.continues? = some p → ∀ c ∈ chars.head?, ¬ p c

theorem endsRuns_nil :
  EndsRuns []
  := by
  intro kind p hkind
  nofun

theorem endsRuns_cons {c : Char} (h : c.toNat < 0x2E) (rest : List Char) :
  EndsRuns (c :: rest)
  := by
  rintro kind p hkind d ⟨⟩ hd
  have hle := le_toNat_of_continues? hkind hd
  omega

/-! ### Literals -/

/-- A literal text is one token. -/
theorem tokensOf_literal {kind : Token.Kind} {text : String} (h : isLiteralText kind text.toList)
    {rest : List Char} (hrest : EndsRuns rest) (position : Nat) :
  tokensOf position (text.toList ++ rest) =
    ⟨kind, text, position⟩ :: tokensOf (position + text.toList.length) rest
  := by
  cases hchars : text.toList with
  | nil =>
    rw [hchars, isLiteralText_nil] at h
    cases h
  | cons c run =>
    rw [hchars] at h
    obtain ⟨rfl, p, hkind, hrun⟩ := isLiteralText_cons_iff.mp h
    rw [List.cons_append, tokensOf_of_run _ (not_isBlank_of_isLiteralText h) hkind hrun
      (hrest _ p hkind), ← hchars, Token.ofChars_toList hkind, hchars, List.length_cons,
      Nat.add_assoc, Nat.add_comm 1]

theorem isLiteral_of_isLiteralText {kind : Token.Kind} {text : String}
    (h : isLiteralText kind text.toList) (position : Nat) :
  (Token.mk kind text position).isLiteral
  := by
  cases kind with
  | number | constant => rfl
  | operator | parenthesis | finish | unknown => cases h

/-- A text has a sign in front of the rest, or none. -/
theorem eq_signedText_or_splitSign_eq (text : String) :
  (∃ negative body, text = signedText negative body ∧ (splitSign text.toList).2 = body.toList)
    ∨ (splitSign text.toList).2 = text.toList
  := by
  rw [splitSign.eq_def]
  split
  · next body htext =>
    left
    refine ⟨true, String.ofList body, ?_, String.toList_ofList.symm⟩
    apply String.toList_inj.mp
    rw [htext, toList_signedText, String.toList_ofList]
    rfl
  · next body htext =>
    left
    refine ⟨false, String.ofList body, ?_, String.toList_ofList.symm⟩
    apply String.toList_inj.mp
    rw [htext, toList_signedText, String.toList_ofList]
    rfl
  · right
    rfl

/-- The token of a sign. -/
def signToken (negative : Bool) (position : Nat) : Token :=
  ⟨.operator, if negative then "-" else "+", position⟩

theorem sign?_signToken (negative : Bool) (position : Nat) :
  (signToken negative position).sign? = some negative
  := by
  cases negative <;> rfl

theorem negativeSigns_signToken (negative : Bool) (position : Nat) :
  negativeSigns [signToken negative position] = negative
  := by
  cases negative <;> rfl

/-- The sign in front of a text is a token. -/
theorem tokensOf_signedText (negative : Bool) (text : String) (rest : List Char) (position : Nat) :
  tokensOf position ((signedText negative text).toList ++ rest) =
    signToken negative position :: tokensOf (position + 1) (text.toList ++ rest)
  := by
  rw [toList_signedText]
  cases negative with
  | false => apply tokensOf_of_single (by decide) (by decide)
  | true => apply tokensOf_of_single (by decide) (by decide)

/-- A readable literal splits into tokens that derive it. -/
theorem tokensOf_readableLiteral {kind : Token.Kind} {text : String}
    (h : isReadableLiteral kind text) {rest : List Char} (hrest : EndsRuns rest) (position : Nat) :
  ∃ tokens, tokensOf position (text.toList ++ rest)
      = tokens ++ tokensOf (position + text.toList.length) rest
    ∧ Derives .factor tokens (.literal kind text)
  := by
  rw [isReadableLiteral_eq] at h
  rcases eq_signedText_or_splitSign_eq text with ⟨negative, body, rfl, hbody⟩ | hbody
  · rw [hbody] at h
    have hsigns : ∀ s ∈ [signToken negative position], s.sign?.isSome := by
      intro s hs
      rw [List.mem_singleton.mp hs, sign?_signToken]
      rfl
    have hderives := Derives.signed (List.cons_ne_nil _ _) hsigns
      (isLiteral_of_isLiteralText h (position + 1))
    rw [negativeSigns_signToken] at hderives
    refine ⟨_, ?_, hderives⟩
    rw [tokensOf_signedText, tokensOf_literal h hrest, toList_signedText, List.length_cons,
      Nat.add_assoc, Nat.add_comm 1]
    rfl
  · rw [hbody] at h
    exact ⟨_, tokensOf_literal h hrest position, .literal (isLiteral_of_isLiteralText h position)⟩

/-! ### Renderings -/

theorem tokensOf_opening (rest : List Char) (position : Nat) :
  tokensOf position ('(' :: rest) =
    ⟨.parenthesis, "(", position⟩ :: tokensOf (position + 1) rest
  := by
  apply tokensOf_of_single (by decide) (by decide)

theorem tokensOf_closing (rest : List Char) (position : Nat) :
  tokensOf position (')' :: rest) =
    ⟨.parenthesis, ")", position⟩ :: tokensOf (position + 1) rest
  := by
  apply tokensOf_of_single (by decide) (by decide)

/-- An operator is a token by itself. -/
theorem tokensOf_symbol (op : Operator) (rest : List Char) (position : Nat) :
  tokensOf position (op.symbol.toList ++ rest) =
    ⟨.operator, op.symbol, position⟩ :: tokensOf (position + 1) rest
  := by
  cases op <;> apply tokensOf_of_single (by decide) (by decide)

theorem toList_render_binary (op : Operator) (left right : Expr) (rest : List Char) :
  (Expr.binary op left right).render.toList ++ rest =
    '(' :: (left.render.toList ++ ' ' :: (op.symbol.toList ++ ' ' ::
      (right.render.toList ++ ')' :: rest)))
  := by
  simp [Expr.render, String.toList_append]

theorem length_toList_render_binary (op : Operator) (left right : Expr) :
  (Expr.binary op left right).render.toList.length =
    left.render.toList.length + right.render.toList.length + 5
  := by
  cases op <;> simp [Expr.render, String.toList_append, Operator.symbol] <;> omega

/-- The rendering of a readable expression splits into the tokens of a factor. -/
theorem Expr.tokensOf_render {e : Expr} (h : e.isReadable) {rest : List Char}
    (hrest : EndsRuns rest) (position : Nat) :
  ∃ tokens, tokensOf position (e.render.toList ++ rest)
      = tokens ++ tokensOf (position + e.render.toList.length) rest
    ∧ Derives .factor tokens e
  := by
  induction e generalizing rest position with
  | literal kind text => apply tokensOf_readableLiteral h hrest
  | binary op left right ihl ihr =>
    rw [isReadable, Bool.and_eq_true] at h
    have hclosing : EndsRuns (')' :: rest) := endsRuns_cons (by decide) rest
    have hoperator : EndsRuns (' ' :: (op.symbol.toList ++ ' ' ::
        (right.render.toList ++ ')' :: rest))) := endsRuns_cons (by decide) _
    obtain ⟨xs, hxs, hx⟩ := ihl h.1 hoperator (position + 1)
    obtain ⟨ys, hys, hy⟩ := ihr h.2 hclosing
      (position + 1 + left.render.toList.length + 1 + 1 + 1)
    have hgroup : ∀ n m : Nat, Derives .factor (⟨.parenthesis, "(", position⟩
        :: (xs ++ ⟨.operator, op.symbol, n⟩ :: ys) ++ [⟨.parenthesis, ")", m⟩])
        (.binary op left right) := by
      intro n m
      apply Derives.groupBinary rfl hx ⟨rfl, rfl⟩ hy rfl
    refine ⟨_, ?_, hgroup (position + 1 + left.render.toList.length + 1)
      (position + 1 + left.render.toList.length + 1 + 1 + 1 + right.render.toList.length)⟩
    rw [toList_render_binary, tokensOf_opening, hxs, tokensOf_of_blank rfl, tokensOf_symbol,
      tokensOf_of_blank rfl, hys, tokensOf_closing, length_toList_render_binary]
    simp only [List.cons_append, List.append_assoc, List.nil_append]
    congr 6
    omega

/-- A readable expression is read from its rendering. -/
theorem parseText_of_isReadable {e : Expr} (h : e.isReadable) :
  parseText e.render = .ok e
  := by
  obtain ⟨tokens, htokens, hderives⟩ := Expr.tokensOf_render h endsRuns_nil 0
  rw [List.append_nil, tokensOf, List.append_nil] at htokens
  rw [parseText_eq_ok_iff_derives, htokens]
  apply hderives.mono (by decide)

/-- Rendering and reading are inverse on the readable expressions and on no others, and every
expression that is read from a source is readable. -/
theorem parseText_render :
  (∀ e : Expr, parseText e.render = .ok e ↔ e.isReadable)
    ∧ ∀ (r : CharReader) (e : Expr), parse r = .ok e → e.isReadable ∧ parseText e.render = .ok e
  := by
  constructor
  · intro e
    constructor
    · apply Expr.isReadable_of_parse
    · apply parseText_of_isReadable
  · intro r e h
    have he := Expr.isReadable_of_parse h
    exact ⟨he, parseText_of_isReadable he⟩

/-- The source `--2*(.5)`, in two pieces, is read as what its rendering `(+2 * .5)` is read as. -/
theorem parseText_render_signed :
  parse (CharReader.ofSignals (signals [.data [0x2D, 0x2D], .interrupted,
      .data [0x32, 0x2A, 0x28, 0x2E, 0x35, 0x29]]))
    = .ok (.binary .mul (.literal .number "+2") (.literal .number ".5"))
    ∧ (Expr.binary .mul (.literal .number "+2") (.literal .number ".5")).isReadable
    ∧ parseText "(+2 * .5)" = .ok (.binary .mul (.literal .number "+2") (.literal .number ".5"))
  := by
  have hsource : parse (CharReader.ofSignals (signals [.data [0x2D, 0x2D], .interrupted,
      .data [0x32, 0x2A, 0x28, 0x2E, 0x35, 0x29]]))
      = .ok (.binary .mul (.literal .number "+2") (.literal .number ".5")) := by
    cbv
  exact ⟨hsource, parseText_render.2 _ _ hsource⟩

end Abacus
