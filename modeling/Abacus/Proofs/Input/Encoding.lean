import Abacus.Input.Utf8
import Mathlib.Tactic.Use

/-!
# Encodings of characters

An encoding consists of a first byte and the continuation bytes that it announces, so whether
bytes begin with one is decided by the first byte and the continuation bytes right behind it,
`firstChar?_gathered`. Hence bytes that do not begin with a continuation byte are decoded as if
nothing stood before them, `charsOf_append`. `Decodes` is the decoding of bytes as a relation, and
`decodes_iff` says that it is what `charsOf` computes. Bytes that break off within a sequence are
`isIncomplete`, and `completePart` leaves such bytes at the end of a list out.
-/

namespace Abacus

/-! ### The first character of a list of bytes -/

/-- An encoding consists of a first byte and as many continuation bytes as it announces. -/
theorem exists_utf8EncodeChar_eq_cons (c : Char) :
  ∃ lead tail, String.utf8EncodeChar c = lead :: tail ∧ announced lead = some tail.length
    ∧ tail.all isContinuation
  := by
  have hc : c.val.toNat < 0x110000 := by
    have := c.valid
    simp only [UInt32.isValidChar, Nat.isValidChar] at this
    omega
  fun_cases String.utf8EncodeChar c with
  | case1 v hv =>
    refine ⟨_, _, rfl, ?_, rfl⟩
    simp only [announced, UInt8.lt_iff_toNat_lt, UInt8.toNat_ofNat, UInt8.toNat_ofNat']
    rw [if_pos (by omega)]
    rfl
  | case2 v hv =>
    refine ⟨_, _, rfl, ?_, ?_⟩
    · simp only [announced, UInt8.lt_iff_toNat_lt, UInt8.toNat_ofNat, UInt8.toNat_ofNat']
      rw [if_neg (by omega), if_neg (by omega), if_pos (by omega)]
      rfl
    · simp [isContinuation, UInt8.lt_iff_toNat_lt, UInt8.le_iff_toNat_le]
      omega
  | case3 v hv =>
    refine ⟨_, _, rfl, ?_, ?_⟩
    · simp only [announced, UInt8.lt_iff_toNat_lt, UInt8.toNat_ofNat, UInt8.toNat_ofNat']
      rw [if_neg (by omega), if_neg (by omega), if_neg (by omega), if_pos (by omega)]
      rfl
    · simp [isContinuation, UInt8.lt_iff_toNat_lt, UInt8.le_iff_toNat_le]
      omega
  | case4 v hv =>
    refine ⟨_, _, rfl, ?_, ?_⟩
    · simp only [announced, UInt8.lt_iff_toNat_lt, UInt8.toNat_ofNat, UInt8.toNat_ofNat']
      rw [if_neg (by omega), if_neg (by omega), if_neg (by omega), if_neg (by omega),
        if_pos (by omega)]
      rfl
    · simp [isContinuation, UInt8.lt_iff_toNat_lt, UInt8.le_iff_toNat_le]
      omega

theorem firstChar?_eq_none_iff {bytes : List UInt8} :
  firstChar? bytes = none ↔ ∀ (c : Char) (rest : List UInt8), bytes ≠ String.utf8EncodeChar c ++ rest
  := by
  rw [Option.eq_none_iff_forall_ne_some]
  constructor
  · intro h c rest hbytes
    apply h c (firstChar?_eq_some_iff.mpr ⟨rest, hbytes⟩)
  · intro h c hc
    obtain ⟨rest, hbytes⟩ := firstChar?_eq_some_iff.mp hc
    apply h c rest hbytes

/-- What begins with the encoding of a character has it as its first character. -/
theorem firstChar?_utf8EncodeChar_append (c : Char) (rest : List UInt8) :
  firstChar? (String.utf8EncodeChar c ++ rest) = some c
  := firstChar?_eq_some_iff.mpr ⟨rest, rfl⟩

/-- The continuation bytes at the beginning of `rest`, but no more than `n`. -/
def gathered (n : Nat) (rest : List UInt8) : List UInt8 :=
  (rest.takeWhile isContinuation).take n

theorem gathered_append_drop (n : Nat) (rest : List UInt8) :
  gathered n rest ++ rest.drop (gathered n rest).length = rest
  := by
  have hprefix : gathered n rest <+: rest :=
    (List.take_prefix _ _).trans (List.takeWhile_prefix _)
  obtain ⟨rest', hrest'⟩ := hprefix
  rw [← List.prefix_iff_eq_append]
  exact ⟨rest', hrest'⟩

/-- A first byte with the bytes behind it begins with the encoding of a character exactly if it
does so with the continuation bytes that it announces. -/
theorem firstChar?_gathered {lead : UInt8} {n : Nat} (h : announced lead = some n)
    (rest : List UInt8) :
  firstChar? (lead :: gathered n rest) = firstChar? (lead :: rest)
  := by
  apply Option.ext
  intro c
  rw [firstChar?_eq_some_iff, firstChar?_eq_some_iff]
  constructor
  · rintro ⟨rest', hrest'⟩
    use rest' ++ rest.drop (gathered n rest).length
    rw [← List.append_assoc, ← hrest', List.cons_append, gathered_append_drop]
  · rintro ⟨rest', hrest'⟩
    obtain ⟨lead', tail, hc, hannounced, htail⟩ := exists_utf8EncodeChar_eq_cons c
    rw [hc, List.cons_append] at hrest'
    obtain ⟨rfl, rfl⟩ := List.cons.inj hrest'
    obtain rfl : tail.length = n := Option.some.inj (hannounced.symm.trans h)
    use []
    rw [hc, gathered, List.takeWhile_append_of_pos (List.all_eq_true.mp htail),
      List.take_left, List.append_nil]

/-- The continuation bytes behind a first byte that begin a character with it are as many as it
announces. -/
theorem utf8Size_of_firstChar?_gathered {lead : UInt8} {n : Nat} {rest : List UInt8} {c : Char}
    (h : announced lead = some n) (hc : firstChar? (lead :: gathered n rest) = some c) :
  c.utf8Size = (gathered n rest).length + 1
  := by
  obtain ⟨rest', hrest'⟩ := firstChar?_eq_some_iff.mp hc
  obtain ⟨lead', tail, hc', hannounced, -⟩ := exists_utf8EncodeChar_eq_cons c
  have hsize : tail.length + 1 = c.utf8Size := by
    rw [← String.length_utf8EncodeChar, hc', List.length_cons]
  rw [hc', List.cons_append] at hrest'
  obtain ⟨rfl, htail⟩ := List.cons.inj hrest'
  obtain rfl : tail.length = n := Option.some.inj (hannounced.symm.trans h)
  have hle : (gathered tail.length rest).length ≤ tail.length := by
    rw [gathered, List.length_take]
    apply Nat.min_le_left
  have hlength := congrArg List.length htail
  rw [List.length_append] at hlength
  omega

/-- A byte that announces nothing begins no character. -/
theorem firstChar?_of_announced_eq_none {lead : UInt8} (h : announced lead = none)
    (rest : List UInt8) :
  firstChar? (lead :: rest) = none
  := by
  rw [firstChar?_eq_none_iff]
  intro c rest' hrest'
  obtain ⟨lead', tail, hc', hannounced, -⟩ := exists_utf8EncodeChar_eq_cons c
  rw [hc', List.cons_append] at hrest'
  obtain ⟨rfl, -⟩ := List.cons.inj hrest'
  rw [h] at hannounced
  cases hannounced

/-! ### The characters of a list of bytes -/

/-- The replacement character, decoded from one byte. -/
def SizedChar.malformed : SizedChar :=
  ⟨replacement, 1, Nat.one_pos⟩

/-- A character, decoded from its encoding. -/
def SizedChar.encoded (c : Char) : SizedChar :=
  ⟨c, c.utf8Size, c.utf8Size_pos⟩

/-- The first of the characters that the bytes decode to. -/
def firstSized (lead : UInt8) (rest : List UInt8) : SizedChar :=
  ((firstChar? (lead :: rest)).map .encoded).getD .malformed

theorem firstSized_of_eq_none {lead : UInt8} {rest : List UInt8}
    (h : firstChar? (lead :: rest) = none) :
  firstSized lead rest = .malformed
  := by
  rw [firstSized, h]
  rfl

theorem charsOf_cons (lead : UInt8) (rest : List UInt8) :
  charsOf (lead :: rest) = firstSized lead rest
    :: charsOf ((lead :: rest).drop (firstSized lead rest).width)
  := by
  rw [charsOf]
  cases hc : firstChar? (lead :: rest) with
  | none => simp [firstSized, hc, SizedChar.malformed]
  | some c =>
    obtain ⟨n, hn⟩ := Nat.exists_eq_add_one_of_ne_zero (Nat.ne_of_gt c.utf8Size_pos)
    simp [firstSized, hc, SizedChar.encoded, hn]

/-- The first character takes no more bytes than there are. -/
theorem width_firstSized_le (lead : UInt8) (rest : List UInt8) :
  (firstSized lead rest).width ≤ (lead :: rest).length
  := by
  cases hc : firstChar? (lead :: rest) with
  | none => simp [firstSized, hc, SizedChar.malformed]
  | some c =>
    obtain ⟨rest', hrest'⟩ := firstChar?_eq_some_iff.mp hc
    rw [hrest', List.length_append, String.length_utf8EncodeChar]
    simp [firstSized, hc, SizedChar.encoded]

/-- Bytes that begin with no continuation byte have no part in the character before them. -/
theorem firstSized_append (lead : UInt8) (rest : List UInt8) {rest' : List UInt8}
    (h : ∀ b ∈ rest'.head?, ¬ isContinuation b) :
  firstSized lead (rest ++ rest') = firstSized lead rest
  := by
  have hgathered : ∀ n, gathered n (rest ++ rest') = gathered n rest := by
    intro n
    have htail : rest'.takeWhile isContinuation = [] := by
      cases rest' with
      | nil => rfl
      | cons b rest' => apply List.takeWhile_cons_of_neg (h b rfl)
    rw [gathered, gathered, List.takeWhile_append, htail, List.append_nil]
    split
    · next hall => rw [(List.takeWhile_prefix _).eq_of_length hall]
    · rfl
  have hfirst : firstChar? (lead :: (rest ++ rest')) = firstChar? (lead :: rest) := by
    cases hannounced : announced lead with
    | none =>
      rw [firstChar?_of_announced_eq_none hannounced, firstChar?_of_announced_eq_none hannounced]
    | some n => rw [← firstChar?_gathered hannounced, hgathered, firstChar?_gathered hannounced]
  rw [firstSized, firstSized, hfirst]

/-- Bytes that begin with no continuation byte are decoded for themselves. -/
theorem charsOf_append (bytes : List UInt8) {bytes' : List UInt8}
    (h : ∀ b ∈ bytes'.head?, ¬ isContinuation b) :
  charsOf (bytes ++ bytes') = charsOf bytes ++ charsOf bytes'
  := by
  induction hlength : bytes.length using Nat.strongRecOn generalizing bytes with
  | ind length ih =>
    cases bytes with
    | nil => rw [charsOf, List.nil_append, List.nil_append]
    | cons lead rest =>
      have hle := width_firstSized_le lead rest
      have hpos := (firstSized lead rest).width_pos
      rw [List.cons_append, charsOf_cons, firstSized_append lead rest h, charsOf_cons lead rest,
        List.cons_append, ← List.cons_append, List.drop_append_of_le_length hle]
      congr 1
      apply ih _ _ _ rfl
      rw [← hlength, List.length_drop]
      omega

theorem charsOf_utf8EncodeChar_append (c : Char) (rest : List UInt8) :
  charsOf (String.utf8EncodeChar c ++ rest) = .encoded c :: charsOf rest
  := by
  obtain ⟨lead, tail, hc, -⟩ := exists_utf8EncodeChar_eq_cons c
  have hfirst : firstSized lead (tail ++ rest) = .encoded c := by
    rw [firstSized, ← List.cons_append, ← hc, firstChar?_utf8EncodeChar_append]
    rfl
  rw [hc, List.cons_append, charsOf_cons, hfirst, ← List.cons_append, ← hc]
  congr 2
  apply List.drop_left'
  apply String.length_utf8EncodeChar

/-- A text is decoded from its encoding. -/
theorem map_char_charsOf_bytesOfText (text : String) :
  (charsOf (bytesOfText text)).map SizedChar.char = text.toList
  := by
  rw [bytesOfText]
  induction text.toList with
  | nil => rw [List.flatMap_nil, charsOf, List.map_nil]
  | cons c chars ih =>
    rw [List.flatMap_cons, charsOf_utf8EncodeChar_append, List.map_cons, ih]
    rfl

/-! ### Decoding as a relation -/

/-- The bytes decode to the characters: where they begin with the encoding of a character, it is
the next one and its encoding is passed over, and elsewhere the next one is the replacement
character and one byte is passed over. -/
inductive Decodes : List UInt8 → List Char → Prop
  | nil : Decodes [] []
  | encoded (c : Char) {rest : List UInt8} {chars : List Char} (h : Decodes rest chars) :
      Decodes (String.utf8EncodeChar c ++ rest) (c :: chars)
  | malformed {b : UInt8} {rest : List UInt8} {chars : List Char}
      (hb : ∀ (c : Char) (rest' : List UInt8), b :: rest ≠ String.utf8EncodeChar c ++ rest')
      (h : Decodes rest chars) :
      Decodes (b :: rest) ('\uFFFD' :: chars)

/-- Bytes decode to the characters that `charsOf` gives and to no others. -/
theorem decodes_iff {bytes : List UInt8} {chars : List Char} :
  Decodes bytes chars ↔ (charsOf bytes).map SizedChar.char = chars
  := by
  constructor
  · intro h
    induction h with
    | nil => rw [charsOf, List.map_nil]
    | encoded c _ ih =>
      rw [charsOf_utf8EncodeChar_append, List.map_cons, ih]
      rfl
    | malformed hb _ ih =>
      rw [charsOf, firstChar?_eq_none_iff.mpr hb, List.map_cons, ih]
      rfl
  · rintro rfl
    fun_induction charsOf bytes with
    | case1 => exact .nil
    | case2 b rest c hc ih =>
      obtain ⟨rest', hrest'⟩ := firstChar?_eq_some_iff.mp hc
      obtain ⟨n, hn⟩ := Nat.exists_eq_add_one_of_ne_zero (Nat.ne_of_gt c.utf8Size_pos)
      have hdrop : rest.drop (c.utf8Size - 1) = rest' := by
        rw [hn, Nat.add_sub_cancel, ← List.drop_succ_cons, ← hn, hrest']
        apply List.drop_left'
        apply String.length_utf8EncodeChar
      rw [hdrop] at ih ⊢
      rw [hrest']
      apply Decodes.encoded c ih
    | case3 b rest hc ih => exact .malformed (firstChar?_eq_none_iff.mp hc) ih

/-! ### Incomplete sequences -/

/-- The bytes begin a sequence that goes on behind them. -/
def isIncomplete : List UInt8 → Bool
  | [] => false
  | lead :: tail =>
    match announced lead with
    | none => false
    | some n => tail.length < n && tail.all isContinuation

/-- The bytes without the incomplete sequence at their end, if there is one. -/
def completePart : List UInt8 → List UInt8
  | [] => []
  | b :: rest => if isIncomplete (b :: rest) then [] else b :: completePart rest

theorem isIncomplete_cons_iff {lead : UInt8} {rest : List UInt8} :
  isIncomplete (lead :: rest) ↔ ∃ n, announced lead = some n ∧ rest.length < n
    ∧ rest.all isContinuation
  := by
  rw [isIncomplete]
  cases announced lead with
  | none => simp
  | some n => simp

/-- Incomplete bytes begin with no character. -/
theorem firstChar?_of_isIncomplete {bytes : List UInt8} (h : isIncomplete bytes) :
  firstChar? bytes = none
  := by
  rw [firstChar?_eq_none_iff]
  intro c rest hbytes
  obtain ⟨lead, tail, hc, hannounced, -⟩ := exists_utf8EncodeChar_eq_cons c
  rw [hbytes, hc, List.cons_append, isIncomplete_cons_iff] at h
  obtain ⟨n, hannounced', hlt, -⟩ := h
  obtain rfl : tail.length = n := Option.some.inj (hannounced.symm.trans hannounced')
  rw [List.length_append] at hlt
  omega

theorem announced_of_isContinuation {b : UInt8} (h : isContinuation b) :
  announced b = none
  := by
  simp only [isContinuation, Bool.and_eq_true, decide_eq_true_eq] at h
  rw [announced, if_neg (UInt8.not_lt.mpr h.1), if_pos h.2]

/-- An incomplete sequence begins with no continuation byte. -/
theorem not_isContinuation_of_isIncomplete {bytes : List UInt8} (h : isIncomplete bytes) :
  ∀ b ∈ bytes.head?, ¬ isContinuation b
  := by
  cases bytes with
  | nil => nofun
  | cons lead tail =>
    intro b hb hcontinuation
    obtain rfl := Option.some.inj hb
    simp [isIncomplete, announced_of_isContinuation hcontinuation] at h

/-- The bytes `tail` are an incomplete sequence behind `whole`, or there are none and `whole` does
not end with an incomplete sequence. -/
def BreaksOff (whole tail : List UInt8) : Prop :=
  isIncomplete tail ∨ tail = [] ∧ ∀ ending, ending <:+ whole → ¬ isIncomplete ending

/-- The complete part is followed by an incomplete sequence or by nothing. -/
theorem exists_breaksOff (bytes : List UInt8) :
  ∃ tail, bytes = completePart bytes ++ tail ∧ BreaksOff (completePart bytes) tail
  := by
  induction bytes with
  | nil =>
    refine ⟨[], rfl, .inr ⟨rfl, ?_⟩⟩
    intro ending hending
    rw [List.suffix_nil.mp hending]
    nofun
  | cons b rest ih =>
    by_cases h : isIncomplete (b :: rest)
    · refine ⟨b :: rest, ?_, .inl h⟩
      rw [completePart, if_pos h, List.nil_append]
    · obtain ⟨tail, hrest, htail⟩ := ih
      rw [completePart, if_neg h]
      use tail
      constructor
      · rw [List.cons_append, ← hrest]
      · rcases htail with htail | ⟨rfl, htail⟩
        · left
          apply htail
        · right
          constructor
          · rfl
          · intro ending hending
            rcases List.suffix_cons_iff.mp hending with rfl | hending
            · rw [List.append_nil] at hrest
              rwa [← hrest]
            · apply htail ending hending

namespace BreaksOff

variable {whole tail : List UInt8}

theorem head (h : BreaksOff whole tail) :
  ∀ b ∈ tail.head?, ¬ isContinuation b
  := by
  rcases h with h | ⟨rfl, -⟩
  · apply not_isContinuation_of_isIncomplete h
  · nofun

theorem drop (h : BreaksOff whole tail) (n : Nat) :
  BreaksOff (whole.drop n) tail
  := by
  rcases h with h | ⟨rfl, h⟩
  · left
    apply h
  · right
    constructor
    · rfl
    · intro ending hending
      apply h ending (hending.trans (List.drop_suffix n whole))

/-- No incomplete sequence begins before the end. -/
theorem not_isIncomplete {b : UInt8} (h : BreaksOff (b :: whole) tail) :
  ¬ isIncomplete (b :: (whole ++ tail))
  := by
  rcases h with h | ⟨rfl, h⟩
  · intro hincomplete
    cases tail with
    | nil => cases h
    | cons lead tail =>
      apply not_isContinuation_of_isIncomplete h lead rfl
      obtain ⟨n, -, -, hall⟩ := isIncomplete_cons_iff.mp hincomplete
      rw [List.all_append, List.all_cons, Bool.and_eq_true, Bool.and_eq_true] at hall
      apply hall.2.1
  · rw [List.append_nil]
    apply h _ List.suffix_rfl

end BreaksOff

end Abacus
