import Abacus.Proofs.Parse.Streaming

/-!
# Where an error points

An error of a source carries a token of the source or is that of the end, `ParseError.PointsInto`, and
a token of a source begins with the character at its position: `Token.Found` says that the character
is no blank and goes on with no token before it, and that the text is the characters from there on, as
many as go on with the token. So the position of an error is that of the character which begins the
refused token, or that of the end, `parse_error_position`.
-/

namespace Abacus

/-- The characters behind the first one of the token, up to that at the offset, all go on with its
kind. -/
def Token.GoesOnTo (chars : List Char) (t : Token) (i : Nat) : Prop :=
  ∃ p, t.kind.continues? = some p ∧ t.position < i
    ∧ ∀ j c, t.position < j → j ≤ i → chars[j]? = some c → p c

/-- The token, one of those of the characters, begins at its position and has the text that stands
there. -/
structure Token.Found (chars : List Char) (tokens : List Token) (t : Token) : Prop where
  mem : t ∈ tokens
  /-- The character at the position is no blank and begins a token of the kind. -/
  first : ∃ c, chars[t.position]? = some c ∧ ¬ isBlank c ∧ t.kind = Token.kindOfFirst c
  /-- No token that begins before goes on to the position. -/
  apart : ∀ u ∈ tokens, u.position < t.position →
    u.stop ≤ t.position ∧ ¬ u.GoesOnTo chars t.position
  text_eq : t.kind ≠ .unknown →
    t.text ≠ "" ∧ t.text.toList = (chars.drop t.position).take t.text.length
  /-- The wording quotes the characters of the text. -/
  describe_eq : t.kind ≠ .unknown →
    t.describe = t.kind.describe ++ " \""
      ++ String.ofList ((chars.drop t.position).take t.text.length) ++ "\""
  /-- The character behind the text does not go on with the kind. -/
  longest : ∀ p, t.kind.continues? = some p →
    ∀ c, chars[t.position + t.text.length]? = some c → ¬ p c
  /-- The character of an unknown token begins no token of another kind. -/
  unknown : t.kind = .unknown → ∀ c, chars[t.position]? = some c →
    ¬ isNumberChar c ∧ ¬ isOperatorChar c ∧ ¬ isParenthesis c ∧ ¬ isNameStart c

/-- The error points to the end of the characters, or to a token found among them which it carries. -/
inductive ParseError.PointsInto (chars : List Char) (tokens : List Token) (error : ParseError) : Prop
  | finish (expected : Expected) (h : error = .unexpectedEnd chars.length expected)
  | token (t : Token) (hblames : error.Blames t) (hposition : error.position? = some t.position)
      (hlt : t.position < chars.length) (hfound : t.Found chars tokens)

/-! ### Tokens among the characters -/

namespace Token

/-- The wording of a token that is neither a marker of the end nor unknown quotes its text. -/
theorem describe_eq {t : Token} (hfinish : t.kind ≠ .finish) (hunknown : t.kind ≠ .unknown) :
  t.describe = t.kind.describe ++ " \"" ++ t.text ++ "\""
  := by
  cases hkind : t.kind with
  | finish => apply absurd hkind hfinish
  | unknown => apply absurd hkind hunknown
  | number | operator | parenthesis | constant => simp only [describe, hkind]

theorem kindOfFirst_eq_unknown {c : Char} (h : kindOfFirst c = .unknown) :
  ¬ isNumberChar c ∧ ¬ isOperatorChar c ∧ ¬ isParenthesis c ∧ ¬ isNameStart c
  := by
  rw [kindOfFirst] at h
  repeat' split at h
  any_goals cases h
  exact ⟨‹_›, ‹_›, ‹_›, ‹_›⟩

namespace Covers

variable {chars : List Char} {t : Token}

theorem exists_first (h : t.Covers chars) :
  ∃ c, chars[t.position]? = some c ∧ ¬ isBlank c ∧ t.kind = kindOfFirst c
  := by
  obtain @⟨before, run, rest, first, hsplit, hposition, -, hblank, hkind, -⟩ := h
  refine ⟨first, ?_, hblank, hkind⟩
  rw [hsplit, hposition, List.getElem?_append_right (Nat.le_refl _), Nat.sub_self]
  rfl

/-- The character behind the token does not go on with it. -/
theorem not_continues_stop (h : t.Covers chars) {p : Char → Bool} (hp : t.kind.continues? = some p)
    {c : Char} (hc : chars[t.stop]? = some c) :
  ¬ p c
  := by
  obtain @⟨before, run, rest, first, hsplit, -, hstop, -, -, -, -, hlongest⟩ := h
  apply (hlongest p hp).2
  have hdrop : chars.drop t.stop = rest := by
    have hfront : chars = (before ++ first :: run) ++ rest := by
      rw [hsplit, List.append_assoc, List.cons_append]
    rw [hfront, hstop]
    apply List.drop_left'
    rw [List.length_append, List.length_cons]
    omega
  rw [← hdrop, List.head?_drop]
  exact hc

/-- A token does not go on behind its stop. -/
theorem not_goesOnTo (h : t.Covers chars) {i : Nat} (hstop : t.stop ≤ i) (hi : i < chars.length) :
  ¬ t.GoesOnTo chars i
  := by
  rintro ⟨p, hp, -, hrun⟩
  have hlt : t.stop < chars.length := Nat.lt_of_le_of_lt hstop hi
  have hc : chars[t.stop]? = some chars[t.stop] := List.getElem?_eq_getElem hlt
  apply h.not_continues_stop hp hc
  apply hrun t.stop _ _ hstop hc
  rw [Token.stop]
  omega

/-- The text of a token with a text is what it covers. -/
theorem text_eq (h : t.Covers chars) (hkind : t.kind ≠ .unknown) :
  t.text ≠ "" ∧ t.text.toList = (chars.drop t.position).take t.text.length
  := by
  obtain @⟨before, run, rest, first, hsplit, hposition, -, -, -, htext, -⟩ := h
  rw [if_neg hkind] at htext
  constructor
  · intro hempty
    have hnil := congrArg String.toList (htext.symm.trans hempty)
    rw [String.toList_ofList] at hnil
    cases hnil
  · rw [hposition, hsplit, List.drop_left, htext, String.toList_ofList, String.length_ofList,
      ← List.cons_append, List.take_left]

/-- A token with a text stops where its text ends. -/
theorem stop_eq (h : t.Covers chars) (hkind : t.kind ≠ .unknown) :
  t.stop = t.position + t.text.length
  := by
  rw [Token.stop, Nat.max_eq_right]
  apply Nat.pos_of_ne_zero
  intro hzero
  apply (h.text_eq hkind).1
  rw [← String.length_eq_zero_iff]
  exact hzero

end Covers

end Token

namespace Partitions

variable {chars : List Char} {tokens : List Token}

/-- A token stops before those that begin behind it. -/
theorem stop_le_position (h : Partitions chars tokens) :
  ∀ t ∈ tokens, ∀ u ∈ tokens, t.position < u.position → t.stop ≤ u.position
  := by
  -- The list has the tokens in the order of their positions, so one that begins before is in front.
  apply List.Pairwise.forall_of_forall_of_flip
  · intro t _ hlt
    apply absurd hlt (Nat.lt_irrefl _)
  · apply h.ordered.imp
    intro t u hle _
    exact hle
  · apply h.ordered.imp
    intro t u hle hlt
    apply absurd (Nat.le_trans _ hle) (Nat.not_le.mpr hlt)
    apply Nat.le_add_right

/-- The tokens that partition characters are found among these. -/
theorem found (h : Partitions chars tokens) {t : Token} (ht : t ∈ tokens) :
  t.Found chars tokens
  where
  mem := ht
  first := (h.covers t ht).exists_first
  apart u hu hlt := by
    have hle := h.stop_le_position u hu t ht hlt
    obtain ⟨c, hc, -⟩ := (h.covers t ht).exists_first
    refine ⟨hle, (h.covers u hu).not_goesOnTo hle ?_⟩
    apply (List.getElem?_eq_some_iff.mp hc).1
  text_eq := (h.covers t ht).text_eq
  describe_eq hkind := by
    obtain ⟨c, -, -, hfirst⟩ := (h.covers t ht).exists_first
    rw [← ((h.covers t ht).text_eq hkind).2, String.ofList_toList]
    apply Token.describe_eq (hfirst ▸ Token.kindOfFirst_ne_finish c) hkind
  longest p hp c hc := by
    have hkind : t.kind ≠ .unknown := by
      intro hunknown
      rw [hunknown] at hp
      cases hp
    apply (h.covers t ht).not_continues_stop hp
    rw [(h.covers t ht).stop_eq hkind]
    exact hc
  unknown hunknown c hc := by
    obtain ⟨d, hd, -, hkind⟩ := (h.covers t ht).exists_first
    cases hd.symm.trans hc
    apply Token.kindOfFirst_eq_unknown (hkind.symm.trans hunknown)

end Partitions

/-! ### The errors of a source -/

/-- The error with which a list of tokens that partition characters fails points into these. -/
theorem Draft.pointsInto_of_goOn {chars : List Char} {tokens : List Token}
    (h : Partitions chars tokens) (htokens : ∀ t ∈ tokens, ¬ t.isFinish) {d : Draft}
    {error : ParseError}
    (herror : (d.goOn .whole { supply := TokenList.mk tokens chars.length }).result
      = .error error) :
  error.PointsInto chars tokens
  := by
  rcases d.extend_or_reject chars.length htokens with
    ⟨d', -, hresult⟩ | ⟨k, t, d', error', taken, hk, -, hmove, hresult⟩
  · obtain ⟨expected, hend⟩ := error_of_result_nil (hresult.symm.trans herror)
    exact .finish expected hend
  · have ht := List.mem_of_getElem? hk
    have hblames := blames_of_reject (htokens t ht) hmove
    rw [Except.error.inj (hresult.symm.trans herror)] at hblames
    have hfound := h.found ht
    obtain ⟨c, hc, -⟩ := hfound.first
    exact .token t hblames hblames.position?_eq (List.getElem?_eq_some_iff.mp hc).1 hfound

open CharReader in
/-- The error with which a source fails that no fault and no other end interrupts is that of the end,
behind all characters that the bytes decode to, or carries a token found among these. -/
theorem parse_error_position (script : List Delivery) (bytes : List UInt8) (ends : Nat)
    (h : signals script = bytes.map .byte ++ List.replicate ends .finish) {error : ParseError}
    (herror : parse (ofSignals (signals script)) = .error error) :
  ∃ chars tokens y z,
    (ofSignals (signals script)).readChars = .ok chars y
    ∧ Decodes bytes chars
    ∧ (ofSignals (signals script)).readTokens = .ok tokens z
    ∧ error.PointsInto chars tokens
  := by
  obtain ⟨y, z, hchars, htokens, hposition⟩ := readChars_readTokens_of_ends h
  refine ⟨_, _, y, z, hchars, decodes_iff.mpr rfl, htokens, ?_⟩
  apply Draft.pointsInto_of_goOn (partitions_tokensOf _) (not_isFinish_of_mem_tokensOf 0 _)
  rw [List.length_map, ← hposition, ← (givesUntil_of_readTokens htokens).result_eq]
  exact herror

open CharReader in
/-- In `é 2.)`, whose first character is cut within its bytes, the number is refused, which is behind
two characters and three bytes. -/
theorem parse_error_position_trailing :
  signals [.data [0xC3], .interrupted, .data [0xA9, 0x20, 0x32, 0x2E, 0x29], .endOfFile]
    = [0xC3, 0xA9, 0x20, 0x32, 0x2E, 0x29].map .byte ++ List.replicate 1 .finish
    ∧ parse (ofSignals (signals [.data [0xC3], .interrupted,
        .data [0xA9, 0x20, 0x32, 0x2E, 0x29], .endOfFile]))
      = .error (.trailingToken ⟨.number, "2.", 2⟩)
    ∧ (ParseError.trailingToken ⟨.number, "2.", 2⟩).PointsInto ['é', ' ', '2', '.', ')']
      [⟨.constant, "é", 0⟩, ⟨.number, "2.", 2⟩, ⟨.parenthesis, ")", 4⟩]
  := by
  have hsignals : signals [.data [0xC3], .interrupted,
      .data [0xA9, 0x20, 0x32, 0x2E, 0x29], .endOfFile]
      = [0xC3, 0xA9, 0x20, 0x32, 0x2E, 0x29].map .byte ++ List.replicate 1 .finish := rfl
  have hdecoded : (charsOf [0xC3, 0xA9, 0x20, 0x32, 0x2E, 0x29]).map SizedChar.char
      = ['é', ' ', '2', '.', ')'] := by
    cbv
  have hsplit : tokensOf 0 ['é', ' ', '2', '.', ')']
      = [⟨.constant, "é", 0⟩, ⟨.number, "2.", 2⟩, ⟨.parenthesis, ")", 4⟩] := by
    decide +kernel
  obtain ⟨y, z, hchars, htokens, -⟩ := readChars_readTokens_of_ends hsignals
  rw [hdecoded] at hchars htokens
  rw [hsplit] at htokens
  have herror : parse (ofSignals (signals [.data [0xC3], .interrupted,
      .data [0xA9, 0x20, 0x32, 0x2E, 0x29], .endOfFile]))
      = .error (.trailingToken ⟨.number, "2.", 2⟩) :=
    (givesUntil_of_readTokens htokens).result_eq {}
  obtain ⟨chars, tokens, y', z', hchars', -, htokens', hpoints⟩ :=
    parse_error_position _ _ 1 hsignals herror
  cases hchars'.symm.trans hchars
  cases htokens'.symm.trans htokens
  exact ⟨hsignals, herror, hpoints⟩

end Abacus
