import Abacus.Proofs.Parse.Streaming

/-!
# Tokens of appended texts

Where two lists of characters meet, a number or a name that reaches the end of the first one may go on
with the first character of the second one: the lists join there, `Joins`. If they do not, the tokens
of both together are those of the first one and those of the second one moved on, `tokensOf_append`.
If they do, a token reaches across, `exists_across_of_joins`. So the tokens of a text are those of its
parts if and only if no token reaches from one part to the other, and blanks between two tokens move
those behind them on and have no other influence, `readTokens_append`.
-/

namespace Abacus

/-- The last of the tokens reaches `finish` and goes on with the first of the characters: a number with
a digit or a dot, a constant with an alphanumeric character or an underscore. -/
def Joins (tokens : List Token) (finish : Nat) (chars : List Char) : Prop :=
  ∃ t ∈ tokens.getLast?, t.position + t.text.length = finish
    ∧ (t.kind = .number ∧ chars.head?.any isNumberChar
      ∨ t.kind = .constant ∧ chars.head?.any isNameChar)

instance (tokens : List Token) (finish : Nat) (chars : List Char) :
    Decidable (Joins tokens finish chars) :=
  inferInstanceAs (Decidable (∃ t ∈ tokens.getLast?, _))

/-- No token reaches from in front of the position to behind it. -/
def Apart (tokens : List Token) (position : Nat) : Prop :=
  ∀ t ∈ tokens, t.stop ≤ position ∨ position ≤ t.position

instance (tokens : List Token) (position : Nat) : Decidable (Apart tokens position) :=
  inferInstanceAs (Decidable (∀ t ∈ tokens, _))

/-! ### Where a run goes on -/

namespace Token.Kind

/-- A kind goes on with the first of the characters. -/
theorem run_ne_nil_iff (kind : Kind) (chars : List Char) :
  kind.run chars ≠ []
    ↔ kind = .number ∧ chars.head?.any isNumberChar ∨ kind = .constant ∧ chars.head?.any isNameChar
  := by
  cases chars with
  | nil => cases kind <;> simp [run, continues?]
  | cons c chars => cases kind <;> simp [run, continues?, List.takeWhile_cons]

theorem run_prefix (kind : Kind) (rest : List Char) :
  kind.run rest <+: rest
  := ⟨_, kind.run_append_drop rest⟩

/-- A run that takes all characters goes on with those appended. -/
theorem run_append_ite (kind : Kind) (rest chars : List Char) :
  kind.run (rest ++ chars)
    = if (kind.run rest).length = rest.length then rest ++ kind.run chars else kind.run rest
  := by
  cases hkind : kind.continues? with
  | none =>
    rw [run_of_single hkind, run_of_single hkind, run_of_single hkind]
    cases rest with
    | nil => rfl
    | cons c rest => rfl
  | some p =>
    simp only [run, hkind]
    apply List.takeWhile_append

theorem exists_continues?_of_run_ne_nil {kind : Kind} {chars : List Char} (h : kind.run chars ≠ []) :
  ∃ p, kind.continues? = some p
  := by
  rw [← Option.isSome_iff_exists, Option.isSome_iff_ne_none]
  intro hkind
  apply h (run_of_single hkind chars)

end Token.Kind

theorem joins_iff {tokens : List Token} {finish : Nat} {chars : List Char} :
  Joins tokens finish chars
    ↔ ∃ t ∈ tokens.getLast?, t.position + t.text.length = finish ∧ t.kind.run chars ≠ []
  := by
  simp only [Joins, Token.Kind.run_ne_nil_iff]

theorem joins_singleton {t : Token} {finish : Nat} {chars : List Char} :
  Joins [t] finish chars ↔ t.position + t.text.length = finish ∧ t.kind.run chars ≠ []
  := by
  rw [joins_iff, List.getLast?_singleton]
  simp only [Option.mem_some_iff, exists_eq_left']

/-- A token that does not reach the end has no influence on what is joined there. -/
theorem joins_cons {t : Token} {tokens : List Token} {finish : Nat} {chars : List Char}
    (h : t.position + t.text.length < finish) :
  Joins (t :: tokens) finish chars ↔ Joins tokens finish chars
  := by
  cases tokens with
  | nil =>
    rw [joins_singleton, joins_iff]
    constructor
    · rintro ⟨heq, -⟩
      apply absurd heq (Nat.ne_of_lt h)
    · rintro ⟨u, hu, -⟩
      cases hu
  | cons u tokens => rw [joins_iff, joins_iff, List.getLast?_cons_cons]

theorem Joins.cons {t : Token} {tokens : List Token} {finish : Nat} {chars : List Char}
    (h : Joins tokens finish chars) :
  Joins (t :: tokens) finish chars
  := by
  obtain ⟨u, hu, hjoins⟩ := h
  exact ⟨u, List.mem_getLast?_cons hu, hjoins⟩

/-! ### The tokens of appended lists -/

variable {position : Nat} {c : Char} {rest chars : List Char}

/-- A token whose run does not go on across the end of a list is one of the list with more appended
to it. -/
theorem tokensOf_cons_append (hc : ¬ isBlank c)
    (hrun : (Token.kindOfFirst c).run (rest ++ chars) = (Token.kindOfFirst c).run rest) :
  tokensOf position (c :: (rest ++ chars))
    = .ofChars (Token.kindOfFirst c) (c :: (Token.kindOfFirst c).run rest) position
      :: tokensOf (position + 1 + ((Token.kindOfFirst c).run rest).length)
        (rest.drop ((Token.kindOfFirst c).run rest).length ++ chars)
  := by
  rw [tokensOf_of_not_blank hc, hrun, List.drop_append_of_le_length]
  apply (Token.Kind.run_prefix _ rest).length_le

/-- What is behind a run ends where the whole does. -/
theorem position_add_length_drop (kind : Token.Kind) (position : Nat) (c : Char) (rest : List Char) :
  position + 1 + (kind.run rest).length + (rest.drop (kind.run rest).length).length
    = position + (c :: rest).length
  := by
  have hle := (kind.run_prefix rest).length_le
  rw [List.length_drop, List.length_cons]
  omega

/-- The token of a run that does not take the whole list does not reach the end of it. -/
theorem position_add_length_lt (hne : ((Token.kindOfFirst c).run rest).length ≠ rest.length) :
  (Token.ofChars (Token.kindOfFirst c) (c :: (Token.kindOfFirst c).run rest) position).position
    + (Token.ofChars (Token.kindOfFirst c) (c :: (Token.kindOfFirst c).run rest) position).text.length
    < position + (c :: rest).length
  := by
  have hle := (Token.Kind.run_prefix (Token.kindOfFirst c) rest).length_le
  have hstop := Token.stop_ofChars_run c rest position
  rw [Token.stop] at hstop
  rw [List.length_cons]
  omega

/-- A run that takes the whole list is joined if it goes on. -/
theorem joins_tokensOf_iff (hc : ¬ isBlank c)
    (hall : ((Token.kindOfFirst c).run rest).length = rest.length) :
  Joins (tokensOf position (c :: rest)) (position + (c :: rest).length) chars
    ↔ (Token.kindOfFirst c).run chars ≠ []
  := by
  have hsplit : tokensOf position (c :: rest) = [.ofChars (Token.kindOfFirst c)
      (c :: (Token.kindOfFirst c).run rest) position] := by
    rw [tokensOf_of_not_blank hc, hall, List.drop_length, tokensOf]
  rw [hsplit, joins_singleton]
  apply and_iff_right_of_imp
  intro hne
  obtain ⟨p, hp⟩ := @Token.Kind.exists_continues?_of_run_ne_nil (Token.kindOfFirst c) chars hne
  rw [Token.length_text_ofChars hp, List.length_cons, hall, List.length_cons]
  rfl

/-- A run does not go on across the end of a list that does not join. -/
theorem run_append_of_not_joins (hc : ¬ isBlank c)
    (h : ¬ Joins (tokensOf position (c :: rest)) (position + (c :: rest).length) chars) :
  (Token.kindOfFirst c).run (rest ++ chars) = (Token.kindOfFirst c).run rest
  := by
  rw [Token.Kind.run_append_ite]
  split
  · next hall =>
    rw [joins_tokensOf_iff hc hall, not_not] at h
    rw [h, List.append_nil]
    apply ((Token.Kind.run_prefix _ rest).eq_of_length hall).symm
  · rfl

/-- If the lists do not join, the tokens of both together are those of the one and those of the
other. -/
theorem tokensOf_append (position : Nat) (front chars : List Char)
    (h : ¬ Joins (tokensOf position front) (position + front.length) chars) :
  tokensOf position (front ++ chars)
    = tokensOf position front ++ tokensOf (position + front.length) chars
  := by
  fun_induction tokensOf position front with
  | case1 => rfl
  | case2 position c rest hc ih =>
    rw [List.length_cons, Nat.add_comm rest.length, ← Nat.add_assoc] at h ⊢
    rw [List.cons_append, tokensOf_of_blank hc]
    apply ih h
  | case3 position c rest hc kind run ih =>
    rw [position_add_length_drop _ _ c] at ih
    have hrun : kind.run (rest ++ chars) = run := by
      apply run_append_of_not_joins hc
      rw [tokensOf_of_not_blank hc]
      exact h
    rw [List.cons_append, tokensOf_cons_append hc hrun, List.cons_append, ← ih]
    intro hjoins
    apply h hjoins.cons

/-- If the lists join, a token of both together reaches from the one into the other. -/
theorem exists_across_of_joins (position : Nat) (front chars : List Char)
    (h : Joins (tokensOf position front) (position + front.length) chars) :
  ∃ t ∈ tokensOf position (front ++ chars),
    t.position < position + front.length ∧ position + front.length < t.stop
  := by
  fun_induction tokensOf position front with
  | case1 =>
    obtain ⟨t, ht, -⟩ := h
    cases ht
  | case2 position c rest hc ih =>
    rw [List.length_cons, Nat.add_comm rest.length, ← Nat.add_assoc] at h ⊢
    rw [List.cons_append, tokensOf_of_blank hc]
    apply ih h
  | case3 position c rest hc kind run ih =>
    rw [position_add_length_drop _ _ c] at ih
    -- A run that takes the whole list is the one that is joined; behind any other one there is more.
    by_cases hall : run.length = rest.length
    · rw [← tokensOf_of_not_blank hc, joins_tokensOf_iff hc hall] at h
      have hrun : kind.run (rest ++ chars) = rest ++ kind.run chars := by
        rw [Token.Kind.run_append_ite, if_pos hall]
      rw [List.cons_append, tokensOf_of_not_blank hc]
      refine ⟨_, List.mem_cons_self, ?_, ?_⟩
      · apply Nat.lt_add_of_pos_right (Nat.succ_pos _)
      · have hpos : 0 < (kind.run chars).length := List.length_pos_of_ne_nil h
        rw [Token.stop_ofChars_run, hrun, List.length_append, List.length_cons]
        omega
    · have hrun : kind.run (rest ++ chars) = run := by
        rw [Token.Kind.run_append_ite, if_neg hall]
      rw [joins_cons (position_add_length_lt hall)] at h
      rw [List.cons_append, tokensOf_cons_append hc hrun]
      obtain ⟨t, ht, hacross⟩ := ih h
      exact ⟨t, List.mem_cons_of_mem _ ht, hacross⟩

theorem tokensOf_shift (n position : Nat) (chars : List Char) :
  tokensOf (n + position) chars = (tokensOf position chars).map (Token.shift n)
  := by
  fun_induction tokensOf position chars with
  | case1 => rw [tokensOf, List.map_nil]
  | case2 position c rest hc ih => rw [tokensOf_of_blank hc, Nat.add_assoc, ih]
  | case3 position c rest hc kind run ih =>
    rw [tokensOf_of_not_blank hc, Nat.add_assoc, Nat.add_assoc, ← Nat.add_assoc position, ih]
    rfl

/-- Blanks in front move all tokens on. -/
theorem tokensOf_blanks_append (position : Nat) {blanks : List Char} (h : ∀ c ∈ blanks, isBlank c)
    (chars : List Char) :
  tokensOf position (blanks ++ chars) = tokensOf (position + blanks.length) chars
  := by
  induction blanks generalizing position with
  | nil => rfl
  | cons c blanks ih =>
    rw [List.forall_mem_cons] at h
    rw [List.cons_append, tokensOf_of_blank h.1, ih _ h.2, List.length_cons, Nat.add_assoc,
      Nat.add_comm 1]

/-- No token goes on with a blank. -/
theorem not_joins_blank {tokens : List Token} {finish : Nat} {c : Char} (h : isBlank c)
    (chars : List Char) :
  ¬ Joins tokens finish (c :: chars)
  := by
  rw [joins_iff]
  rintro ⟨t, -, -, hne⟩
  obtain ⟨p, hp⟩ := Token.Kind.exists_continues?_of_run_ne_nil hne
  apply hne
  rw [Token.Kind.run, hp]
  apply List.takeWhile_cons_of_neg
  intro hc
  have hlt := toNat_of_isBlank h
  have hle := le_toNat_of_continues? hp hc
  omega

theorem not_joins_of_apart {front chars : List Char}
    (h : Apart (tokensOf 0 (front ++ chars)) front.length) :
  ¬ Joins (tokensOf 0 front) front.length chars
  := by
  intro hjoins
  rw [← Nat.zero_add front.length] at hjoins
  obtain ⟨t, ht, hposition, hstop⟩ := exists_across_of_joins 0 front chars hjoins
  rcases h t ht with hle | hle
  · omega
  · omega

theorem apart_of_eq {front chars : List Char}
    (h : tokensOf 0 (front ++ chars)
      = tokensOf 0 front ++ (tokensOf 0 chars).map (Token.shift front.length)) :
  Apart (tokensOf 0 (front ++ chars)) front.length
  := by
  intro t ht
  rw [h] at ht
  rcases List.mem_append.mp ht with ht | ht
  · left
    apply ((partitions_tokensOf front).covers t ht).stop_le
  · right
    obtain ⟨u, -, rfl⟩ := List.mem_map.mp ht
    apply Nat.le_add_right

/-- The tokens of appended lists are those of the one and those of the other, moved on, if and only if
the lists do not join. -/
theorem tokensOf_append_iff (front chars : List Char) :
  tokensOf 0 (front ++ chars)
      = tokensOf 0 front ++ (tokensOf 0 chars).map (Token.shift front.length)
    ↔ ¬ Joins (tokensOf 0 front) front.length chars
  := by
  constructor
  · intro h
    apply not_joins_of_apart (apart_of_eq h)
  · intro h
    rw [← Nat.zero_add front.length] at h
    rw [tokensOf_append 0 front chars h, Nat.zero_add, ← tokensOf_shift, Nat.add_zero]

/-! ### Blanks between tokens -/

theorem map_word_tokensOf (position : Nat) (chars : List Char) :
  (tokensOf position chars).map Token.word = (tokensOf 0 chars).map Token.word
  := by
  rw [← Nat.add_zero position, tokensOf_shift, List.map_map]
  rfl

/-- Blanks between two tokens change neither the kinds nor the texts of the tokens. -/
theorem map_word_tokensOf_blanks {front blanks chars : List Char} (hblanks : ∀ c ∈ blanks, isBlank c)
    (h : Apart (tokensOf 0 (front ++ chars)) front.length) :
  (tokensOf 0 (front ++ blanks ++ chars)).map Token.word
    = (tokensOf 0 (front ++ chars)).map Token.word
  := by
  cases blanks with
  | nil => rw [List.append_nil]
  | cons c blanks =>
    have hmore : ¬ Joins (tokensOf 0 front) (0 + front.length) (c :: blanks ++ chars) :=
      not_joins_blank (hblanks c List.mem_cons_self) (blanks ++ chars)
    have hjoins := not_joins_of_apart h
    rw [← Nat.zero_add front.length] at hjoins
    rw [List.append_assoc, tokensOf_append 0 front _ hmore, tokensOf_append 0 front _ hjoins,
      tokensOf_blanks_append _ hblanks, List.map_append, List.map_append,
      map_word_tokensOf (0 + front.length + _), map_word_tokensOf (0 + front.length)]

open CharReader in
/-- The tokens of appended texts are those of the first one and those of the second one, moved on by
the characters of the first one, if and only if the last token of the first text does not go on with
the first character of the second one. Blanks that are put in where no token reaches across change
neither the kinds nor the texts of the tokens. -/
theorem readTokens_append (a b : String) :
  ∃ as bs tokens x y z,
    (ofText a).readTokens = .ok as x
    ∧ (ofText b).readTokens = .ok bs y
    ∧ (ofText (a ++ b)).readTokens = .ok tokens z
    ∧ (tokens = as ++ bs.map (Token.shift a.length) ↔ ¬ Joins as a.length b.toList)
    ∧ ∀ blanks : String, (∀ c ∈ blanks.toList, isBlank c) → Apart tokens a.length →
      ∃ tokens' z', (ofText (a ++ blanks ++ b)).readTokens = .ok tokens' z'
        ∧ tokens'.map Token.word = tokens.map Token.word
  := by
  obtain ⟨x, ha⟩ := readTokens_ofText a
  obtain ⟨y, hb⟩ := readTokens_ofText b
  obtain ⟨z, htokens⟩ := readTokens_ofText (a ++ b)
  rw [String.toList_append] at htokens
  refine ⟨_, _, _, x, y, z, ha, hb, htokens, ?_, ?_⟩
  · rw [← String.length_toList]
    apply tokensOf_append_iff
  · intro blanks hblanks hapart
    obtain ⟨z', htokens'⟩ := readTokens_ofText (a ++ blanks ++ b)
    rw [String.toList_append, String.toList_append] at htokens'
    rw [← String.length_toList] at hapart
    exact ⟨_, z', htokens', map_word_tokensOf_blanks hblanks hapart⟩

open CharReader in
/-- `1+` and `.5` do not join, and blanks between them leave the three tokens; `1` and `.5` join. -/
theorem readTokens_append_number :
  (∃ z, (ofText ("1+" ++ ".5")).readTokens
      = .ok ([⟨.number, "1", 0⟩, ⟨.operator, "+", 1⟩] ++ [⟨.number, ".5", 2⟩]) z)
    ∧ (∃ tokens z, (ofText ("1+" ++ "\t\n" ++ ".5")).readTokens = .ok tokens z
      ∧ tokens.map Token.word = [(.number, "1"), (.operator, "+"), (.number, ".5")])
    ∧ ∃ tokens z, (ofText ("1" ++ ".5")).readTokens = .ok tokens z
      ∧ tokens ≠ [⟨.number, "1", 0⟩, ⟨.number, ".5", 1⟩]
  := by
  have hone : tokensOf 0 "1".toList = [⟨.number, "1", 0⟩] := by
    decide +kernel
  have hplus : tokensOf 0 "1+".toList = [⟨.number, "1", 0⟩, ⟨.operator, "+", 1⟩] := by
    decide +kernel
  have hback : tokensOf 0 ".5".toList = [⟨.number, ".5", 0⟩] := by
    decide +kernel
  obtain ⟨x₁, hone'⟩ := readTokens_ofText "1"
  obtain ⟨x₂, hplus'⟩ := readTokens_ofText "1+"
  obtain ⟨y, hback'⟩ := readTokens_ofText ".5"
  rw [hone] at hone'
  rw [hplus] at hplus'
  rw [hback] at hback'
  obtain ⟨as, bs, tokens, _, _, z, ha, hb, htokens, hiff, hblanks⟩ := readTokens_append "1+" ".5"
  cases ha.symm.trans hplus'
  cases hb.symm.trans hback'
  obtain rfl := hiff.mpr (by decide)
  refine ⟨⟨z, htokens⟩, hblanks "\t\n" (List.all_eq_true.mp rfl) (by decide), ?_⟩
  obtain ⟨as, bs, tokens, _, _, z, ha, hb, htokens, hiff, -⟩ := readTokens_append "1" ".5"
  cases ha.symm.trans hone'
  cases hb.symm.trans hback'
  refine ⟨tokens, z, htokens, ?_⟩
  intro heq
  apply hiff.mp heq
  decide

end Abacus
