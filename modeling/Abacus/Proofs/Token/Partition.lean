import Mathlib
import Abacus.Proofs.Token.Fault

/-!
# Tokens as a partition of the characters

The tokens of a list of characters cover intervals of it that lie one behind the other, and only
blanks lie outside of them, `Partitions`. Each token covers its characters by the rule of the
longest match, `Token.Covers`: the first one decides the kind, and a number or a name goes on for
as long as it may. `partitions_tokensOf` says so of the splitting of a list, and
`readTokens_partitions` of a source that is read to its end, behind which there are markers of the
end and nothing else.
-/

namespace Abacus

/-- The token covers the characters from its position to its stop by the rule of the longest
match: `before` are the characters in front of it, `first` and `run` those that it covers, and
`rest` those behind it. -/
inductive Token.Covers (chars : List Char) (t : Token) : Prop
  | intro {before run rest : List Char} {first : Char}
      (hsplit : chars = before ++ first :: (run ++ rest))
      (hposition : t.position = before.length)
      (hstop : t.stop = before.length + 1 + run.length)
      (hblank : ¬ isBlank first)
      (hkind : t.kind = kindOfFirst first)
      (htext : t.text = if t.kind = .unknown then "" else String.ofList (first :: run))
      (hsingle : t.kind.continues? = none → run = [])
      (hlongest : ∀ p, t.kind.continues? = some p → (∀ c ∈ run, p c) ∧ ∀ c ∈ rest.head?, ¬ p c)

/-- The offset is one of those that the token covers. -/
def Token.Contains (t : Token) (i : Nat) : Prop :=
  t.position ≤ i ∧ i < t.stop

/-- The tokens cover intervals of the characters one behind the other, and every character outside
of these is a blank. -/
structure Partitions (chars : List Char) (tokens : List Token) : Prop where
  covers : ∀ t ∈ tokens, t.Covers chars
  ordered : tokens.Pairwise fun t u => t.stop ≤ u.position
  blank_outside : ∀ i c, chars[i]? = some c → (∀ t ∈ tokens, ¬ t.Contains i) → isBlank c

/-! ### The longest run of a kind -/

namespace Token

theorem Kind.run_of_single {kind : Kind} (h : kind.continues? = none) (rest : List Char) :
  kind.run rest = []
  := by
  rw [Kind.run, h]

theorem Kind.run_append_drop (kind : Kind) (rest : List Char) :
  kind.run rest ++ rest.drop (kind.run rest).length = rest
  := by
  rw [List.prefix_iff_eq_append.symm, Kind.run]
  split
  · apply List.nil_prefix
  · apply List.takeWhile_prefix

/-- The run of a kind consists of characters with which the kind goes on, and the character behind
it is no such one. -/
theorem Kind.run_longest {kind : Kind} {p : Char → Bool} (h : kind.continues? = some p)
    (rest : List Char) :
  (∀ c ∈ kind.run rest, p c) ∧ ∀ c ∈ (rest.drop (kind.run rest).length).head?, ¬ p c
  := by
  have hrun : kind.run rest = rest.takeWhile p := by
    rw [Kind.run, h]
  have hdrop : rest.drop (kind.run rest).length = rest.dropWhile p := by
    apply @List.append_cancel_left _ (kind.run rest)
    rw [run_append_drop, hrun, List.takeWhile_append_dropWhile]
  constructor
  · intro c hc
    rw [hrun] at hc
    apply List.mem_takeWhile_imp hc
  · intro c hc
    have hstop := List.head?_dropWhile_not p rest
    rw [← hdrop, hc] at hstop
    simpa using hstop

/-- The token that begins with a character stops behind the run of its kind. -/
theorem stop_ofChars_run (c : Char) (rest : List Char) (position : Nat) :
  (ofChars (kindOfFirst c) (c :: (kindOfFirst c).run rest) position).stop
    = position + 1 + ((kindOfFirst c).run rest).length
  := by
  cases hkind : (kindOfFirst c).continues? with
  | none => rw [Kind.run_of_single hkind, stop_ofChars_singleton, List.length_nil]
  | some p => apply stop_ofChars_cons hkind

/-- The token that begins with a character covers it and the run of its kind. -/
theorem covers_ofChars_run {c : Char} (hc : ¬ isBlank c) (before rest : List Char) :
  (ofChars (kindOfFirst c) (c :: (kindOfFirst c).run rest) before.length).Covers
    (before ++ c :: rest)
  := by
  apply @Covers.intro _ _ before ((kindOfFirst c).run rest)
    (rest.drop ((kindOfFirst c).run rest).length) c
  · rw [Kind.run_append_drop]
  · rfl
  · apply stop_ofChars_run
  · apply hc
  · rfl
  · rfl
  · intro hkind
    apply Kind.run_of_single hkind
  · intro p hkind
    apply Kind.run_longest hkind

end Token

/-! ### The tokens of a list of characters -/

theorem covers_of_mem_tokensOf (position : Nat) (chars : List Char) :
  ∀ before, before.length = position →
    ∀ t ∈ tokensOf position chars, t.Covers (before ++ chars)
  := by
  fun_induction tokensOf position chars with
  | case1 =>
    intro before hbefore t ht
    cases ht
  | case2 position c rest hc ih =>
    intro before hbefore
    rw [List.append_cons]
    apply ih
    rw [List.length_append, hbefore, List.length_singleton]
  | case3 position c rest hc kind run ih =>
    intro before hbefore t ht
    rcases List.mem_cons.mp ht with rfl | ht
    · rw [← hbefore]
      apply Token.covers_ofChars_run hc
    · have hsplit : before ++ c :: rest = (before ++ c :: run) ++ rest.drop run.length := by
        rw [List.append_assoc, List.cons_append, Token.Kind.run_append_drop]
      rw [hsplit]
      apply ih _ _ t ht
      rw [List.length_append, List.length_cons, hbefore]
      omega

theorem le_position_of_mem_tokensOf {position : Nat} {chars : List Char} :
  ∀ t ∈ tokensOf position chars, position ≤ t.position
  := by
  fun_induction tokensOf position chars with
  | case1 =>
    intro t ht
    cases ht
  | case2 position c rest hc ih =>
    intro t ht
    apply Nat.le_of_succ_le (ih t ht)
  | case3 position c rest hc kind run ih =>
    intro t ht
    rcases List.mem_cons.mp ht with rfl | ht
    · apply Nat.le_refl
    · have hle := ih t ht
      omega

theorem pairwise_tokensOf (position : Nat) (chars : List Char) :
  (tokensOf position chars).Pairwise fun t u => t.stop ≤ u.position
  := by
  fun_induction tokensOf position chars with
  | case1 => apply List.Pairwise.nil
  | case2 position c rest hc ih => apply ih
  | case3 position c rest hc kind run ih =>
    apply List.Pairwise.cons _ ih
    intro t ht
    rw [Token.stop_ofChars_run]
    apply le_position_of_mem_tokensOf t ht

theorem isBlank_outside_tokensOf (position : Nat) (chars : List Char) :
  ∀ i c, chars[i]? = some c → (∀ t ∈ tokensOf position chars, ¬ t.Contains (position + i)) →
    isBlank c
  := by
  fun_induction tokensOf position chars with
  | case1 =>
    intro i c hi
    rw [List.getElem?_nil] at hi
    cases hi
  | case2 position d rest hd ih =>
    intro i c hi h
    cases i with
    | zero =>
      obtain rfl := Option.some.inj hi
      apply hd
    | succ i =>
      apply ih i c hi
      intro t ht
      rw [Nat.add_assoc, Nat.add_comm 1]
      apply h t ht
  | case3 position d rest hd kind run ih =>
    intro i c hi h
    have hstop : (Token.ofChars kind (d :: run) position).stop = position + 1 + run.length :=
      Token.stop_ofChars_run d rest position
    have hlt : run.length < i := by
      apply Nat.lt_of_not_le
      intro hle
      apply h _ List.mem_cons_self
      constructor
      · apply Nat.le_add_right
      · omega
    obtain ⟨j, rfl⟩ := Nat.exists_eq_add_of_lt hlt
    apply ih j c
    · rw [List.getElem?_drop]
      apply hi
    · intro t ht
      have hoffset : position + 1 + run.length + j = position + (run.length + j + 1) := by
        omega
      rw [hoffset]
      apply h t (List.mem_cons_of_mem _ ht)

/-- Splitting characters into tokens partitions them. -/
theorem partitions_tokensOf (chars : List Char) :
  Partitions chars (tokensOf 0 chars)
  where
  covers := covers_of_mem_tokensOf 0 chars [] rfl
  ordered := pairwise_tokensOf 0 chars
  blank_outside i c hi h := by
    apply isBlank_outside_tokensOf 0 chars i c hi
    rwa [Nat.zero_add]

namespace CharReader

/-- Behind the end there are markers of the end only. -/
theorem IsExhausted.tokenResults_eq {r : CharReader} (h : r.IsExhausted) (count : Nat) :
  tokenResults count r = List.replicate count (.ok (.finish r.position), r.position)
  := by
  induction count generalizing r with
  | zero => rfl
  | succ count ih =>
    obtain ⟨z, hread, hz, hposition⟩ := h.readToken_eq
    rw [tokenResults_of_ok hread, ih hz, hposition, List.replicate_succ]

end CharReader

open CharReader in
/-- A source that no fault and no other end interrupts is read to its end. The tokens partition the
characters that its bytes decode to, the reader is then behind the last of these, and every further
reading gives a marker of the end there. -/
theorem readTokens_partitions (script : List Delivery) (bytes : List UInt8) (ends : Nat)
    (h : signals script = bytes.map .byte ++ List.replicate ends .finish) :
  ∃ chars tokens y z,
    (ofSignals (signals script)).readChars = .ok chars y
    ∧ Decodes bytes chars
    ∧ (ofSignals (signals script)).readTokens = .ok tokens z
    ∧ z.position = chars.length
    ∧ (∀ count, tokenResults count z
        = List.replicate count (.ok (.finish chars.length), chars.length))
    ∧ Partitions chars tokens
  := by
  have htail : ∀ x ∈ List.replicate ends Signal.finish, x = .finish := by
    intro x hx
    apply List.eq_of_mem_replicate hx
  obtain ⟨u, hreads, hu⟩ := reads_of_end (r := ofSignals (signals script)) rfl h htail
  obtain ⟨y, hread, -⟩ := hu.read_eq
  obtain ⟨z, htokens, hz, hposition⟩ := readTokens_of_reads hreads hu
  have hlength : z.position = ((charsOf bytes).map SizedChar.char).length := by
    rw [hposition, hreads.position_eq, List.length_map]
    apply Nat.zero_add
  refine ⟨_, _, y, z, readChars_of_reads hreads hread, ?_, htokens, hlength, ?_, ?_⟩
  · rw [decodes_iff]
  · intro count
    rw [hz.tokenResults_eq, hlength]
  · apply partitions_tokensOf

open CharReader in
/-- Groups, blanks and numbers, one of which is cut in two, with two reports of the end. -/
theorem readTokens_partitions_cut :
  signals [.data [0x28, 0x2E], .interrupted, .data [0x35, 0x0A, 0x09, 0x2B, 0x32, 0x2E], .endOfFile,
      .unexpectedEnd]
    = [0x28, 0x2E, 0x35, 0x0A, 0x09, 0x2B, 0x32, 0x2E].map .byte ++ List.replicate 2 .finish
    ∧ ∃ z, (ofSignals (signals [.data [0x28, 0x2E], .interrupted,
        .data [0x35, 0x0A, 0x09, 0x2B, 0x32, 0x2E], .endOfFile, .unexpectedEnd])).readTokens
      = .ok [⟨.parenthesis, "(", 0⟩, ⟨.number, ".5", 1⟩, ⟨.operator, "+", 5⟩,
        ⟨.number, "2.", 6⟩] z
    ∧ z.position = 8
    ∧ tokenResults 2 z = [(.ok (.finish 8), 8), (.ok (.finish 8), 8)]
    ∧ Partitions ['(', '.', '5', '\n', '\t', '+', '2', '.'] [⟨.parenthesis, "(", 0⟩,
        ⟨.number, ".5", 1⟩, ⟨.operator, "+", 5⟩, ⟨.number, "2.", 6⟩]
  := by
  refine ⟨rfl, ?_⟩
  obtain ⟨chars, tokens, y, z, hchars, -, htokens, hposition, hresults, hpartitions⟩ :=
    readTokens_partitions [.data [0x28, 0x2E], .interrupted,
      .data [0x35, 0x0A, 0x09, 0x2B, 0x32, 0x2E], .endOfFile, .unexpectedEnd]
      [0x28, 0x2E, 0x35, 0x0A, 0x09, 0x2B, 0x32, 0x2E] 2 rfl
  have hchars' : (ofSignals (signals [.data [0x28, 0x2E], .interrupted,
      .data [0x35, 0x0A, 0x09, 0x2B, 0x32, 0x2E], .endOfFile, .unexpectedEnd])).readChars
      = .ok ['(', '.', '5', '\n', '\t', '+', '2', '.'] ⟨⟨[.finish], []⟩, none, 8⟩ := by
    cbv
  have htokens' : (ofSignals (signals [.data [0x28, 0x2E], .interrupted,
      .data [0x35, 0x0A, 0x09, 0x2B, 0x32, 0x2E], .endOfFile, .unexpectedEnd])).readTokens
      = .ok [⟨.parenthesis, "(", 0⟩, ⟨.number, ".5", 1⟩, ⟨.operator, "+", 5⟩,
        ⟨.number, "2.", 6⟩] ⟨⟨[], []⟩, none, 8⟩ := by
    apply readTokens_of_ok (by cbv) (by decide)
    apply readTokens_of_ok (by cbv) (by decide)
    apply readTokens_of_ok (by cbv) (by decide)
    apply readTokens_of_ok (by cbv) (by decide)
    apply readTokens_of_finish (by cbv) rfl
  cases hchars.symm.trans hchars'
  cases htokens.symm.trans htokens'
  exact ⟨_, htokens', hposition, hresults 2, hpartitions⟩

end Abacus
