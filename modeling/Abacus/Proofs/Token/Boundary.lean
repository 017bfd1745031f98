import Mathlib
import Abacus.Proofs.Token.Partition

/-!
# Reports of an end between tokens

A source may report an end and have more bytes behind it. The tokens in front of the report are
those of the bytes in front of it, and the tokens behind it are those of the bytes behind it: no
character and no token reaches across. The report itself shows as a marker of the end, unless it is
used up by a number or a constant that looks for its end there or by an incomplete sequence.
`CharReader.tokenResults_append_of_reads` gives the results up to the report, and
`tokenResults_across_end` those of the whole source.
-/

namespace Abacus

/-- The last of the tokens is a number or a constant that reaches the position `finish`. -/
def endsOpen (finish : Nat) (tokens : List Token) : Bool :=
  tokens.getLast?.any (Token.isOpenAt finish)

/-- The bytes end with an incomplete sequence. -/
def endsIncomplete (bytes : List UInt8) : Bool :=
  bytes.tails.any isIncomplete

theorem endsOpen_cons {finish : Nat} {t : Token} (h : t.isOpenAt finish = false)
    (tokens : List Token) :
  endsOpen finish (t :: tokens) = endsOpen finish tokens
  := by
  cases tokens with
  | nil => simp [endsOpen, h]
  | cons t' tokens => rw [endsOpen, List.getLast?_cons_cons, endsOpen]

theorem endsOpen_singleton {finish : Nat} {t : Token} (h : t.isOpenAt finish) :
  endsOpen finish [t]
  := h

/-! ### Incomplete sequences at the end -/

theorem endsIncomplete_iff (bytes : List UInt8) :
  endsIncomplete bytes ↔ ∃ tail, tail <:+ bytes ∧ isIncomplete tail
  := by
  simp [endsIncomplete, List.any_eq_true]

/-- Bytes that end with no incomplete sequence are complete. -/
theorem breaksOff_of_not_endsIncomplete {bytes : List UInt8} (h : ¬ endsIncomplete bytes) :
  BreaksOff bytes []
  := by
  right
  refine ⟨rfl, ?_⟩
  intro tail htail hincomplete
  exact h ((endsIncomplete_iff bytes).mpr ⟨tail, htail, hincomplete⟩)

theorem charsOf_of_all_isContinuation {bytes : List UInt8} (h : ∀ b ∈ bytes, isContinuation b) :
  charsOf bytes = List.replicate bytes.length .malformed
  := by
  induction bytes with
  | nil =>
    rw [charsOf]
    rfl
  | cons b bytes ih =>
    rw [List.forall_mem_cons] at h
    have hfirst := firstSized_of_eq_none
      (firstChar?_of_announced_eq_none (announced_of_isContinuation h.1) bytes)
    rw [charsOf_cons, hfirst, List.length_cons, List.replicate_succ, ← ih h.2]
    rfl

/-- The last character of an incomplete sequence is malformed. -/
theorem getLast?_charsOf_of_endsIncomplete {bytes : List UInt8} (h : endsIncomplete bytes) :
  (charsOf bytes).getLast? = some .malformed
  := by
  obtain ⟨tail, ⟨whole, rfl⟩, htail⟩ := (endsIncomplete_iff bytes).mp h
  cases tail with
  | nil => cases htail
  | cons lead rest =>
    obtain ⟨n, -, -, hall⟩ := isIncomplete_cons_iff.mp htail
    have hfirst := firstSized_of_eq_none (firstChar?_of_isIncomplete htail)
    have hchars : charsOf (lead :: rest) = List.replicate (rest.length + 1) .malformed := by
      rw [charsOf_cons, hfirst, List.replicate_succ,
        ← charsOf_of_all_isContinuation (List.all_eq_true.mp hall)]
      rfl
    rw [charsOf_append whole (not_isContinuation_of_isIncomplete htail), hchars,
      List.getLast?_append, List.getLast?_replicate, if_neg (Nat.succ_ne_zero _)]
    rfl

/-- No number and no name goes on with a malformed character. -/
theorem not_continues?_replacement {kind : Token.Kind} {p : Char → Bool}
    (h : kind.continues? = some p) :
  ¬ p replacement
  := by
  cases kind with
  | number =>
    cases h
    decide
  | constant =>
    cases h
    decide +kernel
  | operator | parenthesis | finish | unknown => cases h

theorem continues?_kindOfFirst_replacement :
  (Token.kindOfFirst replacement).continues? = none
  := by
  decide +kernel

theorem Token.isSome_continues? (t : Token) :
  t.kind.continues?.isSome = t.isLiteral
  := by
  rcases t with ⟨_ | _ | _ | _ | _ | _, text, position⟩ <;> rfl

/-- No number and no constant reaches the end of characters of which the last is malformed. -/
theorem not_isOpenAt_of_getLast? {chars : List Char} (h : chars.getLast? = some replacement) :
  ∀ t ∈ tokensOf 0 chars, ¬ t.isOpenAt chars.length
  := by
  intro t ht hopen
  rw [Token.isOpenAt, Bool.and_eq_true, decide_eq_true_iff] at hopen
  obtain ⟨hliteral, hfinish⟩ := hopen
  rw [← t.isSome_continues?, Option.isSome_iff_exists] at hliteral
  obtain ⟨p, hp⟩ := hliteral
  obtain @⟨before, run, rest, first, hsplit, hposition, hstop, -, hkind, -, -, hlongest⟩ :=
    covers_of_mem_tokensOf 0 chars [] rfl t ht
  rw [List.nil_append] at hsplit
  have hle : chars.length ≤ t.stop := by
    rw [← hfinish]
    apply Nat.add_le_add_left (Nat.le_max_right _ _)
  obtain rfl : rest = [] := by
    rw [hstop, hsplit] at hle
    simp only [List.length_append, List.length_cons] at hle
    apply List.eq_nil_of_length_eq_zero
    omega
  have hmem : replacement ∈ first :: run := by
    rw [hsplit, List.append_nil, List.getLast?_append_cons] at h
    apply List.mem_of_getLast? h
  rcases List.mem_cons.mp hmem with rfl | hrun
  · rw [hkind, continues?_kindOfFirst_replacement] at hp
    cases hp
  · exact not_continues?_replacement hp ((hlongest p hp).1 replacement hrun)

theorem endsOpen_eq_false_of_getLast? {chars : List Char} (h : chars.getLast? = some replacement) :
  endsOpen chars.length (tokensOf 0 chars) = false
  := by
  rw [endsOpen, Bool.eq_false_iff, Ne, Option.any_eq_true]
  rintro ⟨t, ht, hopen⟩
  apply not_isOpenAt_of_getLast? h t (List.mem_of_getLast? ht) hopen

/-! ### Results up to a report of an end -/

/-- A number or a constant that reaches a position stops there. -/
theorem stop_of_isOpenAt {position finish : Nat} {chars : List Char} {t : Token}
    (ht : t ∈ tokensOf position chars) (hopen : t.isOpenAt finish) :
  t.stop = finish
  := by
  rw [Token.isOpenAt, Bool.and_eq_true, decide_eq_true_iff] at hopen
  have hknown : t.kind ≠ .unknown := by
    intro hunknown
    rw [← t.isSome_continues?, hunknown] at hopen
    cases hopen.1
  obtain @⟨before, run, rest, first, -, -, -, -, -, htext, -, -⟩ :=
    covers_of_mem_tokensOf position chars (List.replicate position ' ') List.length_replicate t ht
  rw [if_neg hknown] at htext
  have hpos : 1 ≤ t.text.length := by
    rw [htext, String.length_ofList]
    apply Nat.succ_pos
  rw [Token.stop, Nat.max_eq_right hpos, hopen.2]

namespace CharReader

theorem readToken_of_none {r z : CharReader} (h : r.read = .ok none z) :
  r.readToken = .ok (.finish z.position) z
  := by
  rw [readToken_eq, skipBlanks_eq, h]

theorem position_of_read_none {r z : CharReader} (h : r.read = .ok none z) :
  z.position = r.position
  := by
  rcases r with ⟨bytes, _ | held, position⟩
  · simp only [read] at h
    split at h
    · cases h
    · cases h
      rfl
    · cases h
  · cases h

theorem tokenResults_congr {r r' : CharReader} (h : r.readToken = r'.readToken) (count : Nat) :
  tokenResults count r = tokenResults count r'
  := by
  cases count with
  | zero => rfl
  | succ count => rw [tokenResults, tokenResults, h]

/-- A reader gives the tokens of the characters ahead, and then whatever is left gives. If the last
token looks for its end behind them, it uses up the report of an end that is there. -/
theorem tokenResults_append_of_reads {r z u : CharReader} {chars : List SizedChar}
    {tokens : List Token} (h : r.Reads chars z)
    (htokens : tokensOf r.position (chars.map SizedChar.char) = tokens)
    (hu : if endsOpen z.position tokens then z.read = .ok none u else u = z) (count : Nat) :
  tokenResults (tokens.length + count) r
    = tokens.map (fun t => (.ok t, t.stop)) ++ tokenResults count u
  := by
  induction hlength : chars.length using Nat.strongRecOn generalizing r chars tokens with
  | ind length ih =>
    cases firstToken_of_reads h with
    | blank hsplit hread =>
      rw [hsplit] at htokens
      obtain rfl : [] = tokens := htokens
      obtain rfl : u = z := hu
      rw [List.length_nil, Nat.zero_add, tokenResults_congr hread]
      rfl
    | @complete t chars' r' hsplit hread hrest hlt hstop hopen =>
      rw [hsplit] at htokens
      obtain rfl := htokens
      rw [endsOpen_cons hopen] at hu
      have hresults := ih _ (hlength ▸ hlt) hrest rfl hu rfl
      rw [List.length_cons, Nat.add_right_comm, tokenResults_of_ok hread, hresults, hstop]
      rfl
    | @unfinished t hsplit hopen hfault hend =>
      have ht : t ∈ tokensOf r.position (chars.map SizedChar.char) := by
        rw [hsplit]
        apply List.mem_singleton_self
      rw [hsplit] at htokens
      obtain rfl := htokens
      rw [if_pos (endsOpen_singleton hopen)] at hu
      rw [List.length_singleton, Nat.add_comm, tokenResults_of_ok (hend u hu),
        position_of_read_none hu, ← stop_of_isOpenAt ht hopen]
      rfl

/-- A reader that comes to an end behind the characters gives their tokens, and then markers of the
end only. -/
theorem tokenResults_of_exhausted {r z : CharReader} {chars : List SizedChar} {tokens : List Token}
    (h : r.Reads chars z) (hz : z.IsExhausted)
    (htokens : tokensOf r.position (chars.map SizedChar.char) = tokens) (count : Nat) :
  tokenResults (tokens.length + count) r = tokens.map (fun t => (.ok t, t.stop))
    ++ List.replicate count (.ok (.finish z.position), z.position)
  := by
  obtain ⟨u, hread, hu, hposition⟩ := hz.read_eq
  cases hopen : endsOpen z.position tokens with
  | true =>
    have hnext : if endsOpen z.position tokens then z.read = .ok none u else u = z := by
      rw [if_pos hopen, hread]
    rw [tokenResults_append_of_reads h htokens hnext, hu.tokenResults_eq, hposition]
  | false =>
    have hnext : if endsOpen z.position tokens then z.read = .ok none z else z = z := by
      rw [if_neg (Bool.eq_false_iff.mp hopen)]
    rw [tokenResults_append_of_reads h htokens hnext, hz.tokenResults_eq]

end CharReader

/-! ### A report of an end with more behind it -/

open CharReader in
/-- A fresh reader gives the characters of the bytes in front of a report of an end. Behind them it
is at the report, or behind the report if an incomplete sequence has used it up. Behind the report
it is a fresh reader of what is there, moved on by the characters. -/
theorem reads_up_to_finish (bytes : List UInt8) (rest : List Signal) {finish : Nat}
    (hfinish : (charsOf bytes).length = finish) :
  ∃ z, (ofSignals (bytes.map .byte ++ .finish :: rest)).Reads (charsOf bytes) z
    ∧ z.position = finish
    ∧ if endsIncomplete bytes then z = (ofSignals rest).shift finish
      else z.read = .ok none ((ofSignals rest).shift finish)
  := by
  have hleft : ⟨⟨rest, []⟩, none, 0 + (charsOf bytes).length⟩ = (ofSignals rest).shift finish := by
    rw [Nat.zero_add, hfinish]
    rfl
  by_cases hincomplete : endsIncomplete bytes
  · obtain ⟨tail, ⟨whole, hbytes⟩, htail⟩ := (endsIncomplete_iff bytes).mp hincomplete
    have hahead : (ofSignals (bytes.map .byte ++ .finish :: rest)).bytes.ahead
        = (whole ++ tail).map .byte ++ .finish :: rest := by
      rw [hbytes]
      rfl
    have hreads := reads_of_incomplete rfl hahead htail
    rw [hbytes] at hreads
    refine ⟨_, hreads, ?_, ?_⟩
    · rw [hfinish]
      apply Nat.zero_add
    · rw [if_pos hincomplete]
      apply hleft
  · obtain ⟨z, hreads, hz⟩ := reads_of_finish (r := ofSignals (bytes.map .byte ++ .finish :: rest))
      rfl rfl (breaksOff_of_not_endsIncomplete hincomplete)
    refine ⟨z, hreads, ?_, ?_⟩
    · rw [hreads.position_eq, hfinish]
      apply Nat.zero_add
    · rw [if_neg hincomplete, ← hleft]
      apply hz

/-- What a report of an end behind the bytes shows as: a marker of the end at the position
`finish`, unless the last of the tokens or an incomplete sequence uses it up. -/
def endResults (bytes : List UInt8) (finish : Nat) (tokens : List Token) :
    List (Except Fault Token × Nat) :=
  if endsOpen finish tokens || endsIncomplete bytes then [] else [(.ok (.finish finish), finish)]

open CharReader in
/-- A fresh reader gives the tokens of the bytes in front of a report of an end, and then the report
if it is not used up. What is left is a fresh reader of the signals behind the report, moved on by
the characters in front of it. -/
theorem tokenResults_up_to_finish (bytes : List UInt8) (rest : List Signal) {chars : List Char}
    {tokens : List Token} (hchars : (charsOf bytes).map SizedChar.char = chars)
    (htokens : tokensOf 0 chars = tokens) (count : Nat) :
  tokenResults (tokens.length + ((endResults bytes chars.length tokens).length + count))
      (ofSignals (bytes.map .byte ++ .finish :: rest))
    = tokens.map (fun t => (.ok t, t.stop)) ++ (endResults bytes chars.length tokens
      ++ (tokenResults count (ofSignals rest)).map (shiftResult chars.length))
  := by
  have hlength : (charsOf bytes).length = chars.length := by
    rw [← hchars, List.length_map]
  have hlast : endsIncomplete bytes → endsOpen chars.length tokens = false := by
    intro hincomplete
    rw [← htokens]
    apply endsOpen_eq_false_of_getLast?
    rw [← hchars, List.getLast?_map, getLast?_charsOf_of_endsIncomplete hincomplete]
    rfl
  obtain ⟨z, hreads, hposition, hz⟩ := reads_up_to_finish bytes rest hlength
  rw [← hchars] at htokens
  rw [← tokenResults_shift, endResults]
  -- The report is used up by an incomplete sequence, by an open token, or by neither.
  by_cases hincomplete : endsIncomplete bytes
  · rw [if_pos hincomplete] at hz
    rw [hincomplete, Bool.or_true, if_pos rfl, List.length_nil, Nat.zero_add, List.nil_append]
    apply tokenResults_append_of_reads hreads htokens
    rw [hposition, hlast hincomplete, if_neg Bool.false_ne_true, hz]
  · rw [if_neg hincomplete] at hz
    rw [Bool.eq_false_iff.mpr hincomplete, Bool.or_false]
    by_cases hopen : endsOpen chars.length tokens
    · rw [if_pos hopen, List.length_nil, Nat.zero_add, List.nil_append]
      apply tokenResults_append_of_reads hreads htokens
      rw [hposition, if_pos hopen, hz]
    · have hnext : if endsOpen z.position tokens then z.read = .ok none z else z = z := by
        rw [hposition, if_neg hopen]
      rw [if_neg hopen, List.length_singleton, Nat.add_comm 1,
        tokenResults_append_of_reads hreads htokens hnext, tokenResults_of_ok (readToken_of_none hz)]
      rfl

open CharReader in
/-- A fresh reader gives the tokens of the bytes in front of the last end, and then markers of the
end only. -/
theorem tokenResults_up_to_last (bytes : List UInt8) (ends : Nat) {chars : List Char}
    {tokens : List Token} (hchars : (charsOf bytes).map SizedChar.char = chars)
    (htokens : tokensOf 0 chars = tokens) (count : Nat) :
  tokenResults (tokens.length + count)
      (ofSignals (bytes.map .byte ++ List.replicate ends .finish))
    = tokens.map (fun t => (.ok t, t.stop))
      ++ List.replicate count (.ok (.finish chars.length), chars.length)
  := by
  obtain ⟨z, hreads, hz, hlength⟩ := @reads_of_ends _ bytes ends rfl
  have hposition : z.position = chars.length := by
    rw [hlength, ← hchars, List.length_map]
  rw [← hchars] at htokens
  rw [tokenResults_of_exhausted hreads hz htokens, hposition]

theorem Token.stop_shift (n : Nat) (t : Token) :
  (t.shift n).stop = n + t.stop
  := Nat.add_assoc n t.position _

/-- Moving the results of readings on moves their tokens on. -/
theorem CharReader.map_shiftResult_tokens (n : Nat) (tokens : List Token) :
  (tokens.map fun t => (Except.ok t, t.stop)).map (shiftResult n)
    = (tokens.map (Token.shift n)).map fun t => (.ok t, t.stop)
  := by
  rw [List.map_map, List.map_map]
  apply List.map_congr_left
  intro t _
  rw [Function.comp_apply, Function.comp_apply, Token.stop_shift]
  rfl

open CharReader in
/-- A report of an end separates the tokens of the bytes in front of it from those of the bytes
behind it. Either portion has the tokens that it has by itself, the second one moved on by the
characters of the first, and the report shows between them as `endResults` says. -/
theorem tokenResults_across_end (script : List Delivery) (bytes bytes' : List UInt8) (ends : Nat)
    (h : signals script
      = bytes.map .byte ++ .finish :: (bytes'.map .byte ++ List.replicate ends .finish)) :
  ∃ chars tokens chars' tokens' y z y' z',
    (ofSignals (bytes.map .byte)).readChars = .ok chars y
    ∧ (ofSignals (bytes.map .byte)).readTokens = .ok tokens z
    ∧ (ofSignals (bytes'.map .byte)).readChars = .ok chars' y'
    ∧ (ofSignals (bytes'.map .byte)).readTokens = .ok tokens' z'
    ∧ ∀ count,
      tokenResults (tokens.length + ((endResults bytes chars.length tokens).length
          + (tokens'.length + count))) (ofSignals (signals script))
        = tokens.map (fun t => (.ok t, t.stop)) ++ (endResults bytes chars.length tokens
          ++ ((tokens'.map (Token.shift chars.length)).map (fun t => (.ok t, t.stop))
          ++ List.replicate count
            (.ok (.finish (chars.length + chars'.length)), chars.length + chars'.length)))
  := by
  obtain ⟨y, z, hchars, htokens, -⟩ :=
    @readChars_readTokens_of_ends _ bytes 0 (List.append_nil _).symm
  obtain ⟨y', z', hchars', htokens', -⟩ :=
    @readChars_readTokens_of_ends _ bytes' 0 (List.append_nil _).symm
  refine ⟨_, _, _, _, y, z, y', z', hchars, htokens, hchars', htokens', ?_⟩
  intro count
  rw [h, tokenResults_up_to_finish bytes _ rfl rfl, tokenResults_up_to_last bytes' ends rfl rfl,
    List.map_append, map_shiftResult_tokens, List.map_replicate]
  rfl

open CharReader in
/-- A number in front of the report uses it up, and a number behind it does not go on with that
one. -/
theorem tokenResults_across_end_within_digits :
  signals [.data [0x31, 0x2B], .interrupted, .data [0x32], .unexpectedEnd,
      .data [0x2E, 0x35, 0x20, 0x29], .endOfFile]
      = [0x31, 0x2B, 0x32].map .byte
        ++ .finish :: ([0x2E, 0x35, 0x20, 0x29].map .byte ++ List.replicate 1 .finish)
    ∧ tokenResults 6 (ofSignals (signals [.data [0x31, 0x2B], .interrupted, .data [0x32],
        .unexpectedEnd, .data [0x2E, 0x35, 0x20, 0x29], .endOfFile]))
      = [(.ok ⟨.number, "1", 0⟩, 1), (.ok ⟨.operator, "+", 1⟩, 2), (.ok ⟨.number, "2", 2⟩, 3),
        (.ok ⟨.number, ".5", 3⟩, 5), (.ok ⟨.parenthesis, ")", 6⟩, 7), (.ok ⟨.finish, "", 7⟩, 7)]
  := by
  constructor
  · rfl
  obtain ⟨chars, tokens, chars', tokens', y, z, y', z', hchars, htokens, hchars', htokens',
    hresults⟩ := tokenResults_across_end [.data [0x31, 0x2B], .interrupted, .data [0x32],
      .unexpectedEnd, .data [0x2E, 0x35, 0x20, 0x29], .endOfFile] [0x31, 0x2B, 0x32]
      [0x2E, 0x35, 0x20, 0x29] 1 rfl
  have hfront : (ofSignals ([0x31, 0x2B, 0x32].map .byte)).readChars
      = .ok ['1', '+', '2'] ⟨⟨[], []⟩, none, 3⟩ := by
    cbv
  have hfrontTokens : (ofSignals ([0x31, 0x2B, 0x32].map .byte)).readTokens
      = .ok [⟨.number, "1", 0⟩, ⟨.operator, "+", 1⟩, ⟨.number, "2", 2⟩]
        ⟨⟨[], []⟩, none, 3⟩ := by
    apply readTokens_of_ok (by cbv) (by decide)
    apply readTokens_of_ok (by cbv) (by decide)
    apply readTokens_of_ok (by cbv) (by decide)
    apply readTokens_of_finish (by cbv) rfl
  have hback : (ofSignals ([0x2E, 0x35, 0x20, 0x29].map .byte)).readChars
      = .ok ['.', '5', ' ', ')'] ⟨⟨[], []⟩, none, 4⟩ := by
    cbv
  have hbackTokens : (ofSignals ([0x2E, 0x35, 0x20, 0x29].map .byte)).readTokens
      = .ok [⟨.number, ".5", 0⟩, ⟨.parenthesis, ")", 3⟩] ⟨⟨[], []⟩, none, 4⟩ := by
    apply readTokens_of_ok (by cbv) (by decide)
    apply readTokens_of_ok (by cbv) (by decide)
    apply readTokens_of_finish (by cbv) rfl
  cases hchars.symm.trans hfront
  cases htokens.symm.trans hfrontTokens
  cases hchars'.symm.trans hback
  cases htokens'.symm.trans hbackTokens
  have hend : endResults [0x31, 0x2B, 0x32] ['1', '+', '2'].length
      [⟨.number, "1", 0⟩, ⟨.operator, "+", 1⟩, ⟨.number, "2", 2⟩] = [] := by
    rw [endResults, endsOpen_cons (by decide), endsOpen_cons (by decide),
      endsOpen_singleton (by decide), Bool.true_or, if_pos rfl]
  rw [hend] at hresults
  apply (hresults 1).trans (by decide)

end Abacus
