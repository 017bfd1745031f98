import Abacus.Proofs.Parse.Source
import Abacus.Proofs.Parse.ViablePrefix
import Abacus.Proofs.Token.Partition

/-!
# Reading from a stream and from its tokens

The position of the marker of the end behind the tokens of a list enters an error of the end only,
`Draft.result_goOn_moveEnd`. A source and the list of its tokens differ in it by the blanks behind the
last token, `Partitions.finishOf_add_blanksBehind`, so they read as the same expression or fail with
the same error, up to that position, `parse_stream_eq`.
-/

namespace Abacus

/-! ### The position of the end -/

/-- The error with the end moved back by `n` characters. -/
def ParseError.moveEnd (n : Nat) : ParseError → ParseError
  | .unexpectedEnd position expected => .unexpectedEnd (position + n) expected
  | error => error

theorem ParseError.Blames.moveEnd_eq {t : Token} {error : ParseError} (h : error.Blames t)
    (n : Nat) :
  error.moveEnd n = error
  := by
  cases h <;> rfl

namespace Draft

/-- A marker of the end finishes a draft with the same expression, or is refused in place of the
same, wherever it is. -/
theorem move_finish (d : Draft) :
  (∃ e, ∀ position, (d.step .whole (.finish position)).move = .finish e)
    ∨ ∃ expected, ∀ position, (d.step .whole (.finish position)).move
      = .reject (.unexpectedEnd position expected) true
  := by
  rcases d with ⟨_ | negative | e, pending, _ | ⟨group, groups⟩⟩
  · exact .inr ⟨.factor, fun _ => rfl⟩
  · exact .inr ⟨.factor, fun _ => rfl⟩
  · exact .inr ⟨.literal, fun _ => rfl⟩
  · exact .inr ⟨.literal, fun _ => rfl⟩
  · exact .inl ⟨_, fun _ => rfl⟩
  · exact .inr ⟨.closing, fun _ => rfl⟩

/-- Moving the end behind a list of tokens moves the end that an error reports. -/
theorem result_goOn_moveEnd (d : Draft) {tokens : List Token} (htokens : ∀ t ∈ tokens, ¬ t.isFinish)
    (finish n : Nat) :
  (d.goOn .whole { supply := TokenList.mk tokens (finish + n) }).result
    = (d.goOn .whole { supply := TokenList.mk tokens finish }).result.mapError (·.moveEnd n)
  := by
  induction tokens generalizing d with
  | nil =>
    rw [result_goOn_nil, result_goOn_nil]
    rcases d.move_finish with ⟨e, hmove⟩ | ⟨expected, hmove⟩
    · rw [hmove, hmove]
      rfl
    · rw [hmove, hmove]
      rfl
  | cons t tokens ih =>
    rw [result_goOn_cons, result_goOn_cons]
    cases hmove : (d.step .whole t).move with
    | take next =>
      apply ih
      intro u hu
      apply htokens u (List.mem_cons_of_mem t hu)
    | finish e => rfl
    | reject error taken =>
      have hblames := blames_of_reject (htokens t List.mem_cons_self) hmove
      simp only [Except.mapError, hblames.moveEnd_eq]

/-- An error of the end reports the end of the list. -/
theorem position_of_unexpectedEnd {d : Draft} {tokens : List Token} {finish position : Nat}
    {expected : Expected} (htokens : ∀ t ∈ tokens, ¬ t.isFinish)
    (h : (d.goOn .whole { supply := TokenList.mk tokens finish }).result
      = .error (.unexpectedEnd position expected)) :
  position = finish
  := by
  rcases d.extend_or_reject finish htokens with
    ⟨d', -, hresult⟩ | ⟨k, t, d', error, taken, hk, -, hmove, hresult⟩
  · obtain ⟨expected', herror⟩ := error_of_result_nil (hresult.symm.trans h)
    exact (ParseError.unexpectedEnd.inj herror).1
  · have hblames := blames_of_reject (htokens t (List.mem_of_getElem? hk)) hmove
    rw [Except.error.inj (hresult.symm.trans h)] at hblames
    cases hblames

end Draft

/-! ### The blanks behind the last token -/

/-- The characters behind the last of the tokens, or all of them if there is no token. -/
def charsBehind (tokens : List Token) (chars : List Char) : List Char :=
  match tokens.getLast? with
  | none => chars
  | some t => chars.drop t.stop

/-- The number of blanks behind the last of the tokens. -/
def blanksBehind (tokens : List Token) (chars : List Char) : Nat :=
  (charsBehind tokens chars).countP isBlank

theorem charsBehind_eq_drop (tokens : List Token) (chars : List Char) :
  charsBehind tokens chars = chars.drop (TokenList.finishOf tokens)
  := by
  rw [charsBehind, TokenList.finishOf]
  cases tokens.getLast? with
  | none => rfl
  | some t => rfl

theorem Token.Covers.stop_le {chars : List Char} {t : Token} (h : t.Covers chars) :
  t.stop ≤ chars.length
  := by
  cases h with
  | intro hsplit _ hstop =>
    rw [hsplit, hstop]
    simp only [List.length_append, List.length_cons]
    omega

namespace Partitions

variable {chars : List Char} {tokens : List Token}

theorem finishOf_le (h : Partitions chars tokens) :
  TokenList.finishOf tokens ≤ chars.length
  := by
  rw [TokenList.finishOf]
  cases hlast : tokens.getLast? with
  | none => apply Nat.zero_le
  | some t => apply (h.covers t (List.mem_of_getLast? hlast)).stop_le

theorem stop_le_finishOf (h : Partitions chars tokens) :
  ∀ t ∈ tokens, t.stop ≤ TokenList.finishOf tokens
  := by
  rcases List.eq_nil_or_concat tokens with rfl | ⟨front, last, rfl⟩
  · nofun
  · have hordered := h.ordered
    rw [List.concat_eq_append] at hordered ⊢
    have hfinish : TokenList.finishOf (front ++ [last]) = last.stop := by
      rw [TokenList.finishOf, List.getLast?_concat]
      rfl
    intro t ht
    rw [hfinish]
    rcases List.mem_append.mp ht with ht | ht
    · have hle := (List.pairwise_append.mp hordered).2.2 t ht last (List.mem_singleton_self last)
      apply Nat.le_trans hle (Nat.le_add_right _ _)
    · rw [List.mem_singleton.mp ht]

/-- Behind the last token there are only blanks. -/
theorem isBlank_of_mem_charsBehind (h : Partitions chars tokens) :
  ∀ c ∈ charsBehind tokens chars, isBlank c
  := by
  intro c hc
  rw [charsBehind_eq_drop] at hc
  obtain ⟨i, hi⟩ := List.mem_iff_getElem?.mp hc
  rw [List.getElem?_drop] at hi
  apply h.blank_outside _ c hi
  intro t ht hcontains
  apply absurd hcontains.2 (Nat.not_lt.mpr _)
  apply Nat.le_trans (h.stop_le_finishOf t ht) (Nat.le_add_right _ _)

/-- The end of the source is behind the end of the list of its tokens by the blanks behind the last
token. -/
theorem finishOf_add_blanksBehind (h : Partitions chars tokens) :
  TokenList.finishOf tokens + blanksBehind tokens chars = chars.length
  := by
  rw [blanksBehind, List.countP_eq_length.mpr h.isBlank_of_mem_charsBehind, charsBehind_eq_drop,
    List.length_drop]
  apply Nat.add_sub_of_le h.finishOf_le

end Partitions

namespace CharReader

/-- What a reader of bytes before nothing but ends gives: the characters that the bytes decode to,
and the tokens into which these split, behind which the position is that of the end. -/
theorem reads_of_signals {script : List Delivery} {bytes : List UInt8} {ends : Nat}
    (h : signals script = bytes.map .byte ++ List.replicate ends .finish) :
  ∃ chars y z,
    (ofSignals (signals script)).readChars = .ok chars y
    ∧ (ofSignals (signals script)).readTokens = .ok (tokensOf 0 chars) z
    ∧ z.position = chars.length
  := by
  obtain ⟨y, z, hchars, htokens, hposition⟩ := readChars_readTokens_of_ends h
  refine ⟨_, y, z, hchars, htokens, ?_⟩
  rw [hposition, List.length_map]

end CharReader

theorem not_isFinish_of_mem_tokensOf (position : Nat) (chars : List Char) :
  ∀ t ∈ tokensOf position chars, ¬ t.isFinish
  := by
  intro t ht
  simpa [Token.isFinish] using CharReader.kind_ne_finish_of_tokensOf position chars t ht

open CharReader in
/-- A source that no fault and no other end interrupts is read as the list of its tokens is: as the
same expression, or with the same error. Only an error of the end is behind that of the list by the
blanks behind the last token, and is behind all characters. -/
theorem parse_stream_eq (script : List Delivery) (bytes : List UInt8) (ends : Nat)
    (h : signals script = bytes.map .byte ++ List.replicate ends .finish) :
  ∃ chars tokens y z,
    (ofSignals (signals script)).readChars = .ok chars y
    ∧ (ofSignals (signals script)).readTokens = .ok tokens z
    ∧ parse (ofSignals (signals script))
      = (parseTokens tokens).mapError (·.moveEnd (blanksBehind tokens chars))
    ∧ ∀ position expected,
      parse (ofSignals (signals script)) = .error (.unexpectedEnd position expected) →
      position = chars.length
  := by
  obtain ⟨chars, y, z, hchars, htokens, hposition⟩ := reads_of_signals h
  have hfinish := not_isFinish_of_mem_tokensOf 0 chars
  have hlist : parse (ofSignals (signals script))
      = (({} : Draft).goOn .whole { supply := TokenList.mk (tokensOf 0 chars) chars.length }).result := by
    rw [← hposition]
    apply (givesUntil_of_readTokens htokens).result_eq
  refine ⟨chars, _, y, z, hchars, htokens, ?_, ?_⟩
  · rw [hlist, ← (partitions_tokensOf chars).finishOf_add_blanksBehind,
      Draft.result_goOn_moveEnd {} hfinish]
    rfl
  · intro position expected herror
    apply Draft.position_of_unexpectedEnd hfinish (hlist.symm.trans herror)

open CharReader in
/-- The source `(.5` with two blanks behind it, cut within the number and between the blanks. -/
theorem parse_stream_eq_open_group :
  signals [.data [0x28, 0x2E], .interrupted, .data [0x35, 0x20], .data [0x0A], .endOfFile]
    = [0x28, 0x2E, 0x35, 0x20, 0x0A].map .byte ++ List.replicate 1 .finish
    ∧ parseTokens [⟨.parenthesis, "(", 0⟩, ⟨.number, ".5", 1⟩]
      = .error (.unexpectedEnd 3 .closing)
    ∧ parse (ofSignals (signals [.data [0x28, 0x2E], .interrupted, .data [0x35, 0x20],
        .data [0x0A], .endOfFile]))
      = .error (.unexpectedEnd 5 .closing)
  := by
  refine ⟨rfl, rfl, ?_⟩
  obtain ⟨chars, tokens, y, z, hchars, htokens, hparse, -⟩ :=
    parse_stream_eq [.data [0x28, 0x2E], .interrupted, .data [0x35, 0x20], .data [0x0A], .endOfFile]
      [0x28, 0x2E, 0x35, 0x20, 0x0A] 1 rfl
  have hchars' : (ofSignals (signals [.data [0x28, 0x2E], .interrupted, .data [0x35, 0x20],
      .data [0x0A], .endOfFile])).readChars
      = .ok ['(', '.', '5', ' ', '\n'] ⟨⟨[], []⟩, none, 5⟩ := by
    cbv
  have htokens' : (ofSignals (signals [.data [0x28, 0x2E], .interrupted, .data [0x35, 0x20],
      .data [0x0A], .endOfFile])).readTokens
      = .ok [⟨.parenthesis, "(", 0⟩, ⟨.number, ".5", 1⟩] ⟨⟨[], []⟩, none, 5⟩ := by
    apply readTokens_of_ok (by cbv) (by decide)
    apply readTokens_of_ok (by cbv) (by decide)
    apply readTokens_of_finish (by cbv) rfl
  cases hchars.symm.trans hchars'
  cases htokens.symm.trans htokens'
  rw [hparse]
  rfl

end Abacus
