import Abacus.Proofs.Parse.Grammar
import Abacus.Proofs.Token.Lexical
import Abacus.Proofs.Token.Runs

/-!
# Expressions read from a source

A reader is a supply of the tokens that it reads, so a text reads as the expressions that its
tokens derive, `parseText_eq_ok_iff_derives`. The numbers and names that are read from any source
are literal texts, and the literals of an expression are made from these and from signs, so every
expression that is read from a source is readable, `Expr.isReadable_of_parse`.
-/

namespace Abacus

namespace CharReader

/-! ### Tokens -/

theorem all_of_takeRun {p : Char → Bool} {r r' : CharReader} {chars : List Char}
    (h : CharSource.takeRun p r = .ok chars r') :
  ∀ c ∈ chars, p c
  := by
  fun_induction CharSource.takeRun p r generalizing chars with
  | case1 => cases h
  | case2 =>
    cases h
    intro d hd
    cases hd
  | case3 => cases h
  | case4 r c r' hread hc chars' r'' hrest ih =>
    cases h
    intro d hd
    rcases List.mem_cons.mp hd with rfl | hd
    · apply hc
    · apply ih hrest d hd
  | case5 =>
    cases h
    intro d hd
    cases hd

/-- A token that is read is a marker of the end, or it consists of a character that decides its
kind and of characters with which a token of the kind goes on, if there are any. -/
theorem token_of_readToken {r r' : CharReader} {t : Token} (h : r.readToken = .ok t r') :
  t = .finish r'.position ∨
    ∃ c run position, t = .ofChars (Token.kindOfFirst c) (c :: run) position
      ∧ ((Token.kindOfFirst c).continues? = none → run = [])
      ∧ ∀ p, (Token.kindOfFirst c).continues? = some p → ∀ d ∈ run, p d
  := by
  rw [readToken_eq] at h
  split at h
  · cases h
  · cases h
    left
    rfl
  · next first z hskip =>
    right
    dsimp only at h
    split at h
    · next hkind =>
      cases h
      refine ⟨first.char, [], _, rfl, fun _ => rfl, ?_⟩
      intro p hp d hd
      cases hd
    · next p hkind =>
      split at h
      · cases h
      · next chars u htake =>
        cases h
        refine ⟨first.char, chars, _, rfl, ?_, ?_⟩
        · intro hnone
          cases hkind.symm.trans hnone
        · intro q hq
          obtain rfl := Option.some.inj (hkind.symm.trans hq)
          apply all_of_takeRun htake

/-- The tokens up to a marker of the end are those that the reader gives as a supply, and the marker
is at the position of the reader behind it. -/
theorem givesUntil_of_readTokens {r z : CharReader} {tokens : List Token}
    (h : r.readTokens = .ok tokens z) :
  GivesUntil z.position r tokens
  := by
  rw [readTokens] at h
  fun_induction CharSource.readTokens r generalizing tokens with
  | case1 => cases h
  | case2 r t r' hread hkind =>
    cases h
    rcases token_of_readToken hread with rfl | ⟨c, run, position, rfl, -⟩
    · apply GivesUntil.finish (Outcome.toPulled_eq_ok_iff.mpr hread)
    · apply absurd hkind (Token.kindOfFirst_ne_finish c)
  | case3 => cases h
  | case4 r t r' hread hkind tokens' r'' hrest ih =>
    cases h
    apply GivesUntil.cons (Outcome.toPulled_eq_ok_iff.mpr hread)
    · simpa [Token.isFinish] using hkind
    · apply ih hrest

/-- The tokens that a reader gives as a supply are those up to a marker of the end. -/
theorem readTokens_of_gives {r : CharReader} {tokens : List Token} (h : Gives r tokens) :
  ∃ z, r.readTokens = .ok tokens z
  := by
  induction h with
  | @finish r z t hpull ht =>
    use z
    apply readTokens_of_finish (Outcome.toPulled_eq_ok_iff.mp hpull)
    simpa [Token.isFinish] using ht
  | cons hpull ht _ ih =>
    obtain ⟨z, hrest⟩ := ih
    use z
    apply readTokens_of_ok (Outcome.toPulled_eq_ok_iff.mp hpull) _ hrest
    simpa [Token.isFinish] using ht

/-! ### Literals -/

/-- The text of a literal that is read is one for its kind. -/
theorem isLiteralText_of_readToken {r r' : CharReader} {t : Token} (h : r.readToken = .ok t r')
    (ht : t.isLiteral) :
  isLiteralText t.kind t.text.toList
  := by
  rcases token_of_readToken h with rfl | ⟨c, run, position, rfl, -, hrun⟩
  · cases ht
  · rw [Token.isLiteral_ofChars] at ht
    obtain ⟨p, hkind⟩ := Option.isSome_iff_exists.mp ht
    rw [Token.toList_text_ofChars hkind]
    apply isLiteralText_cons_iff.mpr
    exact ⟨rfl, p, hkind, hrun p hkind⟩

/-- The literals that a reader gives have literal texts. -/
theorem isLiteralText_of_gives {r : CharReader} {tokens : List Token} (h : Gives r tokens) :
  ∀ t ∈ tokens, t.isLiteral → isLiteralText t.kind t.text.toList
  := by
  induction h with
  | finish => nofun
  | cons hpull _ _ ih =>
    intro t ht hliteral
    rcases List.mem_cons.mp ht with rfl | ht
    · apply isLiteralText_of_readToken (Outcome.toPulled_eq_ok_iff.mp hpull) hliteral
    · apply ih t ht hliteral

end CharReader

/-- A literal text behind a sign is readable. -/
theorem isReadableLiteral_signedText {kind : Token.Kind} {text : String}
    (h : isLiteralText kind text.toList) (negative : Bool) :
  isReadableLiteral kind (signedText negative text)
  := by
  rw [isReadableLiteral_eq, signedText, String.toList_append]
  cases negative <;> exact h

theorem isReadableLiteral_of_isLiteralText {kind : Token.Kind} {text : String}
    (h : isLiteralText kind text.toList) :
  isReadableLiteral kind text
  := by
  rw [isReadableLiteral_eq, splitSign_of_isLiteralText h]
  apply h

/-- Tokens with literal texts derive readable expressions. -/
theorem Derives.isReadable {level : Level} {tokens : List Token} {e : Expr}
    (h : Derives level tokens e)
    (htokens : ∀ t ∈ tokens, t.isLiteral → isLiteralText t.kind t.text.toList) :
  e.isReadable
  := by
  induction h using Derives.operatorInduction with
  | literal ht =>
    apply isReadableLiteral_of_isLiteralText
    apply htokens _ List.mem_cons_self ht
  | signed hne hsigns ht =>
    apply isReadableLiteral_signedText
    apply htokens _ List.mem_concat_self ht
  | group _ _ _ ih =>
    apply ih
    intro t ht
    apply htokens t
    simp [ht]
  | loosen _ _ ih => apply ih htokens
  | binary _ _ _ _ ihx ihy =>
    rw [Expr.isReadable, Bool.and_eq_true]
    constructor
    · apply ihx
      intro t ht
      apply htokens t (List.mem_append_left _ ht)
    · apply ihy
      intro t ht
      apply htokens t (List.mem_append_right _ (List.mem_cons_of_mem _ ht))

/-- Every expression that is read from a source is readable. -/
theorem Expr.isReadable_of_parse {r : CharReader} {e : Expr} (h : parse r = .ok e) :
  e.isReadable
  := by
  obtain ⟨tokens, hgives⟩ := exists_gives_of_result_eq_ok h
  apply Derives.isReadable ((parse_eq_ok_iff_derives hgives e).mp h)
  apply CharReader.isLiteralText_of_gives hgives

/-! ### Texts -/

/-- A text has tokens, those into which its characters split, and the end behind them. -/
theorem CharReader.readTokens_ofText (text : String) :
  ∃ z, (ofText text).readTokens = .ok (tokensOf 0 text.toList) z
  := by
  obtain ⟨z, hreads, hz⟩ := reads_of_bytes (bytesOfText text)
  obtain ⟨z', htokens, -⟩ := readTokens_of_reads hreads hz
  rw [map_char_charsOf_bytesOfText] at htokens
  exact ⟨z', htokens⟩

/-- A text reads as the expressions that its tokens derive. -/
theorem parseText_eq_ok_iff_derives (text : String) (e : Expr) :
  parseText text = .ok e ↔ Derives .sum (tokensOf 0 text.toList) e
  := by
  obtain ⟨z, htokens⟩ := CharReader.readTokens_ofText text
  apply parse_eq_ok_iff_derives (CharReader.givesUntil_of_readTokens htokens).gives

end Abacus
