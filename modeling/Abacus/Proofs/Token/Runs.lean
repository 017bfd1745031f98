import Abacus.Proofs.Input.Decoding
import Abacus.Token.Reading
import Abacus.Token.Splitting

/-!
# Tokens read from runs of characters

A reader that gives a list of characters gives the tokens into which the list splits, up to the
last one: a number or a constant that reaches the end of the list is complete only when the reader
has seen what is there. `CharReader.FirstToken` lists the three outcomes of reading one token, by
`CharReader.firstToken_of_reads`. A reader that comes to an end behind the characters gives all
their tokens, `CharReader.readTokens_of_reads`.
-/

namespace Abacus

/-- The position behind the token. -/
def Token.stop (t : Token) : Nat :=
  t.position + max 1 t.text.length

/-- The token is a number or a constant that reaches the position `finish`. -/
def Token.isOpenAt (finish : Nat) (t : Token) : Bool :=
  t.isLiteral && t.position + t.text.length = finish

namespace Token

theorem isLiteral_ofChars (kind : Kind) (chars : List Char) (position : Nat) :
  (ofChars kind chars position).isLiteral = kind.continues?.isSome
  := by
  cases kind <;> rfl

/-- The token of a run whose characters make up a text. -/
theorem ofChars_toList {kind : Kind} {p : Char → Bool} (h : kind.continues? = some p)
    (text : String) (position : Nat) :
  ofChars kind text.toList position = ⟨kind, text, position⟩
  := by
  have hkind : kind ≠ .unknown := by
    rintro rfl
    cases h
  rw [ofChars, if_neg hkind, String.ofList_toList]

/-- The text of a token that is a run consists of the run's characters. -/
theorem toList_text_ofChars {kind : Kind} {p : Char → Bool} (h : kind.continues? = some p)
    (chars : List Char) (position : Nat) :
  (ofChars kind chars position).text.toList = chars
  := by
  rw [← String.toList_ofList (l := chars), ofChars_toList h]

theorem length_text_ofChars {kind : Kind} {p : Char → Bool} (h : kind.continues? = some p)
    (chars : List Char) (position : Nat) :
  (ofChars kind chars position).text.length = chars.length
  := by
  rw [← String.length_toList, toList_text_ofChars h]

/-- A token that consists of one character stops right behind it. -/
theorem stop_ofChars_singleton (kind : Kind) (c : Char) (position : Nat) :
  (ofChars kind [c] position).stop = position + 1
  := by
  rw [stop, ofChars]
  split
  · rfl
  · rw [String.length_ofList]
    rfl

/-- A run stops behind its last character. -/
theorem stop_ofChars_cons {kind : Kind} {p : Char → Bool} (h : kind.continues? = some p)
    (c : Char) (chars : List Char) (position : Nat) :
  (ofChars kind (c :: chars) position).stop = position + 1 + chars.length
  := by
  rw [stop, length_text_ofChars h, List.length_cons]
  dsimp only [ofChars]
  omega

theorem isOpenAt_of_continues?_eq_none {kind : Kind} (h : kind.continues? = none)
    (chars : List Char) (position finish : Nat) :
  (ofChars kind chars position).isOpenAt finish = false
  := by
  rw [isOpenAt, isLiteral_ofChars, h]
  rfl

theorem isOpenAt_iff {kind : Kind} {p : Char → Bool} (h : kind.continues? = some p) (c : Char)
    (chars : List Char) (position finish : Nat) :
  (ofChars kind (c :: chars) position).isOpenAt finish ↔ position + 1 + chars.length = finish
  := by
  have hposition : (ofChars kind (c :: chars) position).position = position := rfl
  rw [isOpenAt, isLiteral_ofChars, h, length_text_ofChars h, List.length_cons, hposition,
    Option.isSome_some, Bool.true_and, decide_eq_true_iff, Nat.add_assoc, Nat.add_comm 1]

end Token

/-! ### Splitting at the first character -/

theorem tokensOf_of_blank {position : Nat} {c : Char} {rest : List Char} (h : isBlank c) :
  tokensOf position (c :: rest) = tokensOf (position + 1) rest
  := by
  rw [tokensOf, if_pos h]

theorem tokensOf_of_not_blank {position : Nat} {c : Char} {rest : List Char} (h : ¬ isBlank c) :
  tokensOf position (c :: rest) =
    .ofChars (Token.kindOfFirst c) (c :: (Token.kindOfFirst c).run rest) position
      :: tokensOf (position + 1 + ((Token.kindOfFirst c).run rest).length)
        (rest.drop ((Token.kindOfFirst c).run rest).length)
  := by
  rw [tokensOf, if_neg h]

/-- A character that begins no run is a token by itself. -/
theorem tokensOf_of_single {position : Nat} {c : Char} (hc : ¬ isBlank c)
    (hkind : (Token.kindOfFirst c).continues? = none) (rest : List Char) :
  tokensOf position (c :: rest) =
    .ofChars (Token.kindOfFirst c) [c] position :: tokensOf (position + 1) rest
  := by
  have hrun : (Token.kindOfFirst c).run rest = [] := by
    rw [Token.Kind.run, hkind]
  rw [tokensOf_of_not_blank hc, hrun, List.length_nil, List.drop_zero, Nat.add_zero]

/-- A run stops in front of the first character that it may not go on with. -/
theorem Token.Kind.run_append {kind : Kind} {p : Char → Bool} (h : kind.continues? = some p)
    {run rest : List Char} (hrun : ∀ c ∈ run, p c) (hrest : ∀ d ∈ rest.head?, ¬ p d) :
  kind.run (run ++ rest) = run
  := by
  rw [Token.Kind.run, h]
  dsimp only
  rw [List.takeWhile_append_of_pos hrun]
  cases rest with
  | nil => apply List.append_nil
  | cons d rest => rw [List.takeWhile_cons_of_neg (hrest d rfl), List.append_nil]

/-- A token that begins a run takes the whole of it. -/
theorem tokensOf_of_run (position : Nat) {c : Char} {p : Char → Bool} {run rest : List Char}
    (hc : ¬ isBlank c) (hkind : (Token.kindOfFirst c).continues? = some p)
    (hrun : ∀ d ∈ run, p d) (hrest : ∀ d ∈ rest.head?, ¬ p d) :
  tokensOf position (c :: (run ++ rest)) =
    .ofChars (Token.kindOfFirst c) (c :: run) position
      :: tokensOf (position + 1 + run.length) rest
  := by
  rw [tokensOf_of_not_blank hc, Token.Kind.run_append hkind hrun hrest, List.drop_left]

namespace CharReader

/-! ### Tokens one by one -/

open CharSource (skipBlanks takeRun)

theorem readTokens_of_finish {r z : CharReader} {t : Token} (h : r.readToken = .ok t z)
    (ht : t.kind = .finish) :
  r.readTokens = .ok [] z
  := by
  rw [readTokens_eq, h]
  simp only [ht, if_true]

theorem readTokens_of_ok {r r' z : CharReader} {t : Token} {tokens : List Token}
    (h : r.readToken = .ok t r') (ht : t.kind ≠ .finish) (hrest : r'.readTokens = .ok tokens z) :
  r.readTokens = .ok (t :: tokens) z
  := by
  rw [readTokens_eq, h]
  simp only [ht, if_false, hrest]

/-! ### Runs of characters -/

theorem Reads.split {r z : CharReader} {chars chars' : List SizedChar}
    (h : r.Reads (chars ++ chars') z) :
  ∃ m, r.Reads chars m ∧ m.Reads chars' z
  := by
  induction chars generalizing r with
  | nil => exact ⟨r, .nil r, h⟩
  | cons c chars ih =>
    cases h with
    | cons hread hrest =>
      obtain ⟨m, hm, hz⟩ := ih hrest
      exact ⟨m, .cons hread hm, hz⟩

/-- The characters of a run are taken, and what follows decides how it ends. -/
theorem takeRun_of_reads {p : Char → Bool} {r z : CharReader} {run : List SizedChar}
    (h : r.Reads run z) (hrun : ∀ c ∈ run, p c.char) :
  takeRun p r =
    match takeRun p z with
    | .error f r => .error f r
    | .ok chars r => .ok (run.map SizedChar.char ++ chars) r
  := by
  induction h with
  | nil r =>
    cases takeRun p r with
    | ok chars r => rfl
    | error f r => rfl
  | @cons r r' z c run h _ ih =>
    have hc := hrun c List.mem_cons_self
    simp only [takeRun_eq p r, h, hc, if_true, ih fun d hd => hrun d (List.mem_cons_of_mem c hd)]
    cases takeRun p z with
    | ok chars r => rfl
    | error f r => rfl

section

variable {p : Char → Bool} {r u u' : CharReader} {run : List SizedChar}

/-- A fault behind the characters of a run loses them. -/
theorem takeRun_of_reads_error {f : Fault} (h : r.Reads run u) (hrun : ∀ c ∈ run, p c.char)
    (hread : u.read = .error f u') :
  takeRun p r = .error f u'
  := by
  have hstop : takeRun p u = .error f u' := by
    rw [takeRun_eq, hread]
  rw [takeRun_of_reads h hrun, hstop]

/-- An end behind the characters of a run ends it. -/
theorem takeRun_of_reads_none (h : r.Reads run u) (hrun : ∀ c ∈ run, p c.char)
    (hread : u.read = .ok none u') :
  takeRun p r = .ok (run.map SizedChar.char) u'
  := by
  have hstop : takeRun p u = .ok [] u' := by
    rw [takeRun_eq, hread]
  rw [takeRun_of_reads h hrun, hstop]
  dsimp only
  rw [List.append_nil]

/-- The first character that a run may not go on with ends it and is put back. -/
theorem takeRun_of_reads_some {d : SizedChar} (h : r.Reads run u) (hrun : ∀ c ∈ run, p c.char)
    (hread : u.read = .ok (some d) u') (hd : ¬ p d.char) :
  takeRun p r = .ok (run.map SizedChar.char) (u'.putBack d)
  := by
  have hstop : takeRun p u = .ok [] (u'.putBack d) := by
    rw [takeRun_eq, hread]
    dsimp only
    rw [if_neg hd]
  rw [takeRun_of_reads h hrun, hstop]
  dsimp only
  rw [List.append_nil]

end

/-! ### The first token of a run of characters -/

section

variable {r r' : CharReader} {c : SizedChar}

theorem readToken_of_blank (h : r.read = .ok (some c) r') (hc : isBlank c.char) :
  r.readToken = r'.readToken
  := by
  rw [readToken_eq, readToken_eq, skipBlanks_eq r, h]
  dsimp only
  rw [if_pos hc]

theorem skipBlanks_of_not_blank (h : r.read = .ok (some c) r') (hc : ¬ isBlank c.char) :
  skipBlanks r = .ok (some c) r'
  := by
  rw [skipBlanks_eq, h]
  dsimp only
  rw [if_neg hc]

/-- A character that no run begins with is a token. -/
theorem readToken_of_single (h : r.read = .ok (some c) r') (hc : ¬ isBlank c.char)
    (hkind : (Token.kindOfFirst c.char).continues? = none) :
  r.readToken = .ok (.ofChars (Token.kindOfFirst c.char) [c.char] r.position) r'
  := by
  rw [readToken_eq, skipBlanks_of_not_blank h hc]
  simp only [hkind, position_of_read_some h, Nat.add_sub_cancel]

/-- A character that a run begins with is read with the rest of the run. -/
theorem readToken_of_run {z : CharReader} {p : Char → Bool} {chars : List Char}
    (h : r.read = .ok (some c) r') (hc : ¬ isBlank c.char)
    (hkind : (Token.kindOfFirst c.char).continues? = some p) (hrun : takeRun p r' = .ok chars z) :
  r.readToken = .ok (.ofChars (Token.kindOfFirst c.char) (c.char :: chars) r.position) z
  := by
  rw [readToken_eq, skipBlanks_of_not_blank h hc]
  simp only [hkind, hrun, position_of_read_some h, Nat.add_sub_cancel]

/-- A fault within a run loses its first character as well. -/
theorem readToken_of_run_error {z : CharReader} {p : Char → Bool} {f : Fault}
    (h : r.read = .ok (some c) r') (hc : ¬ isBlank c.char)
    (hkind : (Token.kindOfFirst c.char).continues? = some p) (hrun : takeRun p r' = .error f z) :
  r.readToken = .error f z
  := by
  rw [readToken_eq, skipBlanks_of_not_blank h hc]
  simp only [hkind, hrun]

end

/-- What reading a token does to a reader that gives the characters and leaves `z`. -/
inductive FirstToken (r : CharReader) (chars : List SizedChar) (z : CharReader) : Prop
  /-- There are only blanks: what follows decides. -/
  | blank (htokens : tokensOf r.position (chars.map SizedChar.char) = [])
      (hread : r.readToken = z.readToken)
  /-- The first token is complete. -/
  | complete {t : Token} {chars' : List SizedChar} {r' : CharReader}
      (htokens : tokensOf r.position (chars.map SizedChar.char)
        = t :: tokensOf r'.position (chars'.map SizedChar.char))
      (hread : r.readToken = .ok t r') (hrest : r'.Reads chars' z)
      (hlt : chars'.length < chars.length) (hstop : r'.position = t.stop)
      (hopen : t.isOpenAt z.position = false)
  /-- The first token reaches the end of the characters and may go on behind them. -/
  | unfinished {t : Token} (htokens : tokensOf r.position (chars.map SizedChar.char) = [t])
      (hopen : t.isOpenAt z.position)
      (hfault : ∀ f z', z.read = .error f z' → r.readToken = .error f z')
      (hend : ∀ z', z.read = .ok none z' → r.readToken = .ok t z')

section

variable {r r' z : CharReader} {c : SizedChar} {chars : List SizedChar}

/-- A blank in front of the first token does not matter. -/
theorem FirstToken.skip (h : r.read = .ok (some c) r') (hc : isBlank c.char)
    (hfirst : FirstToken r' chars z) :
  FirstToken r (c :: chars) z
  := by
  have hsame := readToken_of_blank h hc
  have hsplit : tokensOf r.position ((c :: chars).map SizedChar.char)
      = tokensOf r'.position (chars.map SizedChar.char) := by
    rw [List.map_cons, tokensOf_of_blank hc, position_of_read_some h]
  cases hfirst with
  | blank htokens hread =>
    apply FirstToken.blank
    · rw [hsplit, htokens]
    · rw [hsame, hread]
  | complete htokens hread hrest hlt hstop hopen =>
    rw [← hsplit] at htokens
    rw [← hsame] at hread
    apply FirstToken.complete htokens hread hrest _ hstop hopen
    apply Nat.lt_succ_of_lt hlt
  | unfinished htokens hopen hfault hend =>
    rw [← hsplit] at htokens
    rw [← hsame] at hfault hend
    apply FirstToken.unfinished htokens hopen hfault hend

theorem firstToken_of_single (h : r.read = .ok (some c) r') (hrest : r'.Reads chars z)
    (hc : ¬ isBlank c.char) (hkind : (Token.kindOfFirst c.char).continues? = none) :
  FirstToken r (c :: chars) z
  := by
  have hposition := position_of_read_some h
  apply FirstToken.complete _ (readToken_of_single h hc hkind) hrest
  · apply Nat.lt_succ_self
  · rw [Token.stop_ofChars_singleton, hposition]
  · apply Token.isOpenAt_of_continues?_eq_none hkind
  · rw [List.map_cons, tokensOf_of_single hc hkind, hposition]

/-- A run that reaches the end of the characters is not finished. -/
theorem firstToken_of_open_run {p : Char → Bool} (h : r.read = .ok (some c) r')
    (hrest : r'.Reads chars z) (hc : ¬ isBlank c.char)
    (hkind : (Token.kindOfFirst c.char).continues? = some p) (hrun : ∀ d ∈ chars, p d.char) :
  FirstToken r (c :: chars) z
  := by
  have hmap : ∀ d ∈ chars.map SizedChar.char, p d := by
    simpa using hrun
  apply FirstToken.unfinished
  · have hnil : ∀ d ∈ ([] : List Char).head?, ¬ p d := nofun
    have hsplit := tokensOf_of_run r.position hc hkind hmap hnil
    rwa [List.append_nil, tokensOf] at hsplit
  · rw [Token.isOpenAt_iff hkind, hrest.position_eq, position_of_read_some h, List.length_map]
  · intro f z' hz
    apply readToken_of_run_error h hc hkind (takeRun_of_reads_error hrest hrun hz)
  · intro z' hz
    apply readToken_of_run h hc hkind (takeRun_of_reads_none hrest hrun hz)

/-- A run is complete once the character behind it has been read, which is then read again. -/
theorem firstToken_of_closed_run {p : Char → Bool} {run rest : List SizedChar} {d : SizedChar}
    (h : r.read = .ok (some c) r') (hrest : r'.Reads (run ++ d :: rest) z)
    (hc : ¬ isBlank c.char) (hkind : (Token.kindOfFirst c.char).continues? = some p)
    (hrun : ∀ e ∈ run, p e.char) (hd : ¬ p d.char) :
  FirstToken r (c :: (run ++ d :: rest)) z
  := by
  have hmap : ∀ e ∈ run.map SizedChar.char, p e := by
    simpa using hrun
  have hstop : ∀ e ∈ ((d :: rest).map SizedChar.char).head?, ¬ p e := by
    rintro e ⟨⟩
    apply hd
  obtain ⟨u, hu, hrest⟩ := hrest.split
  cases hrest with
  | @cons _ u' _ _ _ hread hrest =>
    have hback : (u'.putBack d).Reads (d :: rest) z := .cons (read_putBack hread) hrest
    have hposition : (u'.putBack d).position = r.position + 1 + run.length := by
      have hu' := position_of_read_some hread
      rw [hu.position_eq, position_of_read_some h] at hu'
      simp only [putBack, hu', Nat.add_sub_cancel]
    have htoken := readToken_of_run h hc hkind (takeRun_of_reads_some hu hrun hread hd)
    apply FirstToken.complete _ htoken hback
    · simp only [List.length_cons, List.length_append]
      omega
    · rw [Token.stop_ofChars_cons hkind, hposition, List.length_map]
    · rw [← Bool.not_eq_true, Token.isOpenAt_iff hkind, hback.position_eq, hposition,
        List.length_map, List.length_cons]
      omega
    · rw [List.map_cons, List.map_append, tokensOf_of_run _ hc hkind hmap hstop,
        List.length_map, hposition]

theorem firstToken_of_run {p : Char → Bool} (h : r.read = .ok (some c) r')
    (hrest : r'.Reads chars z) (hc : ¬ isBlank c.char)
    (hkind : (Token.kindOfFirst c.char).continues? = some p) :
  FirstToken r (c :: chars) z
  := by
  cases hfind : chars.find? (fun d => !p d.char) with
  | none =>
    apply firstToken_of_open_run h hrest hc hkind
    simpa using hfind
  | some d =>
    obtain ⟨hd, run, rest, rfl, hrun⟩ := List.find?_eq_some_iff_append.mp hfind
    apply firstToken_of_closed_run h hrest hc hkind
    · simpa using hrun
    · simpa using hd

/-- A reader that gives characters reads their first token. -/
theorem firstToken_of_reads (h : r.Reads chars z) :
  FirstToken r chars z
  := by
  induction h with
  | nil r =>
    apply FirstToken.blank
    · rw [List.map_nil, tokensOf]
    · rfl
  | @cons r r' z c chars h hrest ih =>
    by_cases hc : isBlank c.char
    · apply FirstToken.skip h hc ih
    · cases hkind : (Token.kindOfFirst c.char).continues? with
      | none => apply firstToken_of_single h hrest hc hkind
      | some p => apply firstToken_of_run h hrest hc hkind

end

/-! ### All tokens -/

theorem kind_ne_finish_of_tokensOf (position : Nat) (chars : List Char) :
  ∀ t ∈ tokensOf position chars, t.kind ≠ .finish
  := by
  fun_induction tokensOf position chars with
  | case1 => nofun
  | case2 position c rest h ih => apply ih
  | case3 position c rest h kind run ih =>
    intro t ht
    rcases List.mem_cons.mp ht with rfl | ht
    · apply Token.kindOfFirst_ne_finish
    · apply ih t ht

/-- An exhausted reader gives a marker of the end and is still exhausted. -/
theorem IsExhausted.readToken_eq {r : CharReader} (h : r.IsExhausted) :
  ∃ z, r.readToken = .ok (.finish r.position) z ∧ z.IsExhausted ∧ z.position = r.position
  := by
  obtain ⟨z, hread, hz, hposition⟩ := h.read_eq
  refine ⟨z, ?_, hz, hposition⟩
  rw [CharReader.readToken_eq, skipBlanks_eq, hread]
  simp only [hposition]

/-- There are no tokens in an exhausted reader. -/
theorem IsExhausted.readTokens_eq {r : CharReader} (h : r.IsExhausted) :
  ∃ z, r.readTokens = .ok [] z ∧ z.IsExhausted ∧ z.position = r.position
  := by
  obtain ⟨z, htoken, hz⟩ := h.readToken_eq
  exact ⟨z, readTokens_of_finish htoken rfl, hz⟩

/-- A reader that comes to an end behind the characters gives their tokens and is then
exhausted. -/
theorem readTokens_of_reads {r z : CharReader} {chars : List SizedChar} (h : r.Reads chars z)
    (hz : z.IsExhausted) :
  ∃ z', r.readTokens = .ok (tokensOf r.position (chars.map SizedChar.char)) z'
    ∧ z'.IsExhausted ∧ z'.position = z.position
  := by
  induction hlength : chars.length using Nat.strongRecOn generalizing r chars with
  | ind length ih =>
    have hkind := kind_ne_finish_of_tokensOf r.position (chars.map SizedChar.char)
    cases firstToken_of_reads h with
    | blank htokens hread =>
      rw [readTokens_eq, hread, htokens, ← readTokens_eq]
      apply hz.readTokens_eq
    | @complete t chars' r' htokens hread hrest hlt hstop hopen =>
      obtain ⟨z', hrest', hz'⟩ := ih _ (hlength ▸ hlt) hrest rfl
      rw [htokens] at hkind ⊢
      exact ⟨z', readTokens_of_ok hread (hkind t List.mem_cons_self) hrest', hz'⟩
    | @unfinished t htokens hopen hfault hend =>
      obtain ⟨u, hu, hexhausted, hposition⟩ := hz.read_eq
      obtain ⟨z', hz', hexhausted', hposition'⟩ := hexhausted.readTokens_eq
      rw [htokens] at hkind ⊢
      refine ⟨z', ?_, hexhausted', hposition'.trans hposition⟩
      apply readTokens_of_ok (hend u hu) (hkind t List.mem_cons_self) hz'

/-- The characters and the tokens of bytes with nothing but reports of an end behind them. -/
theorem readChars_readTokens_of_ends {signals : List Signal} {bytes : List UInt8} {ends : Nat}
    (h : signals = bytes.map .byte ++ List.replicate ends .finish) :
  ∃ y z, (ofSignals signals).readChars = .ok ((charsOf bytes).map SizedChar.char) y
    ∧ (ofSignals signals).readTokens
      = .ok (tokensOf 0 ((charsOf bytes).map SizedChar.char)) z
    ∧ z.position = (charsOf bytes).length
  := by
  obtain ⟨u, hreads, hu, hposition⟩ := reads_of_ends h
  obtain ⟨y, hread, -⟩ := hu.read_eq
  obtain ⟨z, htokens, -, hz⟩ := readTokens_of_reads hreads hu
  exact ⟨y, z, readChars_of_reads hreads hread, htokens, hz.trans hposition⟩

end CharReader

end Abacus
