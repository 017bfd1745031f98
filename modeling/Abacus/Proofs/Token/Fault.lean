import Mathlib
import Abacus.Proofs.Token.Shift

/-!
# Reading on behind a fault

A fault of the source interrupts the reading of tokens. The tokens completed before it are not
affected. `closedTokens` are the tokens without a last one that the fault may have cut off,
`CharReader.tokenResults_of_reads` gives the results up to the fault, and the reader that is left
there differs from a fresh one in its position only. So `tokenResults_fault` says that a fault
loses the token and the encoded character that are being read, and nothing else.
-/

namespace Abacus

/-- The tokens but for the last one if that is a number or a constant that reaches the position
`finish`. -/
def closedTokens (finish : Nat) (tokens : List Token) : List Token :=
  if tokens.getLast?.any (Token.isOpenAt finish) then tokens.dropLast else tokens

theorem closedTokens_cons {finish : Nat} {t : Token} (h : t.isOpenAt finish = false)
    (tokens : List Token) :
  closedTokens finish (t :: tokens) = t :: closedTokens finish tokens
  := by
  cases tokens with
  | nil => simp [closedTokens, h]
  | cons t' tokens =>
    simp only [closedTokens, List.getLast?_cons_cons, List.dropLast_cons_of_ne_nil
      (List.cons_ne_nil t' tokens)]
    split <;> rfl

theorem closedTokens_singleton {finish : Nat} {t : Token} (h : t.isOpenAt finish) :
  closedTokens finish [t] = []
  := by
  simp [closedTokens, h]

namespace CharReader

theorem readToken_of_fault {r z : CharReader} {f : Fault} (h : r.read = .error f z) :
  r.readToken = .error f z
  := by
  rw [readToken_eq, skipBlanks_eq, h]

theorem tokenResults_of_error {r r' : CharReader} {f : Fault} (h : r.readToken = .error f r')
    (count : Nat) :
  tokenResults (count + 1) r = (.error f, r'.position) :: tokenResults count r'
  := by
  rw [tokenResults, h]

theorem tokenResults_of_ok {r r' : CharReader} {t : Token} (h : r.readToken = .ok t r')
    (count : Nat) :
  tokenResults (count + 1) r = (.ok t, r'.position) :: tokenResults count r'
  := by
  rw [tokenResults, h]

/-- A reader gives the closed tokens of the characters before a fault, then the fault, and then
whatever the reader that is left gives. -/
theorem tokenResults_of_reads {r z z' : CharReader} {chars : List SizedChar} {f : Fault}
    {tokens : List Token} (h : r.Reads chars z) (hz : z.read = .error f z')
    (htokens : closedTokens z.position (tokensOf r.position (chars.map SizedChar.char)) = tokens)
    (count : Nat) :
  tokenResults (tokens.length + 1 + count) r =
    tokens.map (fun t => (.ok t, t.stop)) ++ (.error f, z'.position) :: tokenResults count z'
  := by
  induction hlength : chars.length using Nat.strongRecOn generalizing r chars tokens with
  | ind length ih =>
    cases firstToken_of_reads h with
    | blank hsplit hread =>
      rw [hsplit] at htokens
      obtain rfl : [] = tokens := htokens
      rw [readToken_of_fault hz] at hread
      rw [List.length_nil, Nat.zero_add, Nat.add_comm, tokenResults_of_error hread]
      rfl
    | @complete t chars' r' hsplit hread hrest hlt hstop hopen =>
      rw [hsplit, closedTokens_cons hopen] at htokens
      obtain rfl := htokens
      have hrest' := ih _ (hlength ▸ hlt) hrest rfl rfl
      rw [List.length_cons, Nat.add_right_comm (_ + 1) 1 count, tokenResults_of_ok hread, hrest',
        hstop]
      rfl
    | @unfinished t hsplit hopen hfault hend =>
      rw [hsplit, closedTokens_singleton hopen] at htokens
      obtain rfl := htokens
      rw [List.length_nil, Nat.zero_add, Nat.add_comm, tokenResults_of_error (hfault f z' hz)]
      rfl

end CharReader

open CharReader in
/-- A fault loses the token that is being read, if it is a number or a constant, and the bytes of
an incomplete sequence in front of it. The tokens before are those of the complete bytes, and the
tokens behind are those of a fresh reader, moved on by the characters read. -/
theorem tokenResults_fault (before after : List Delivery) (f : Fault) (bytes : List UInt8)
    (h : signals before = bytes.map .byte) :
  ∃ chars tokens closed z z',
    (ofSignals ((completePart bytes).map .byte)).readChars = .ok chars z
    ∧ (ofSignals ((completePart bytes).map .byte)).readTokens = .ok tokens z'
    ∧ closed = closedTokens chars.length tokens
    ∧ ∀ count,
      tokenResults (closed.length + 1 + count) (ofSignals (signals (before ++ .fault f :: after)))
        = closed.map (fun t => (.ok t, t.stop)) ++ (.error f, chars.length)
          :: (tokenResults count (ofSignals (signals after))).map (shiftResult chars.length)
  := by
  obtain ⟨tail, hbytes, hbreak⟩ := exists_breaksOff bytes
  -- The complete bytes by themselves.
  obtain ⟨y, hreads, hy⟩ := reads_of_bytes (completePart bytes)
  obtain ⟨y', hread, -⟩ := hy.read_eq
  obtain ⟨z', hreadTokens, -⟩ := readTokens_of_reads hreads hy
  refine ⟨_, _, _, y', z', readChars_of_reads hreads hread, hreadTokens, rfl, ?_⟩
  intro count
  -- The complete bytes in front of the fault.
  have hahead : (ofSignals (signals (before ++ .fault f :: after))).bytes.ahead =
      (completePart bytes ++ tail).map .byte ++ .fault f :: signals after := by
    rw [← hbytes, ← h]
    simp [ofSignals, ByteStream.ahead, signals, Delivery.signals]
  obtain ⟨z, hfront, hz⟩ := reads_of_fault rfl hahead hbreak
  have hposition : z.position = (charsOf (completePart bytes)).length := by
    rw [hfront.position_eq]
    apply Nat.zero_add
  have hfresh : z.read =
      .error f ((ofSignals (signals after)).shift (charsOf (completePart bytes)).length) := by
    rw [hz]
    simp [shift, ofSignals]
  have hresults := tokenResults_of_reads hfront hfresh rfl count
  rw [hposition] at hresults
  rw [List.length_map, ← tokenResults_shift]
  apply hresults

open CharReader in
/-- The fault comes behind a number that could go on and within an encoded character. -/
theorem tokenResults_fault_within_number :
  signals [.data [0x31, 0x20], .interrupted, .data [0x2B, 0x32, 0xE2, 0x82]]
      = [0x31, 0x20, 0x2B, 0x32, 0xE2, 0x82].map .byte
    ∧ tokenResults 6 (ofSignals (signals [.data [0x31, 0x20], .interrupted,
        .data [0x2B, 0x32, 0xE2, 0x82], .fault ⟨"broken pipe"⟩, .data [0x2A, 0x33]]))
      = [(.ok ⟨.number, "1", 0⟩, 1), (.ok ⟨.operator, "+", 2⟩, 3), (.error ⟨"broken pipe"⟩, 4),
        (.ok ⟨.operator, "*", 4⟩, 5), (.ok ⟨.number, "3", 5⟩, 6), (.ok ⟨.finish, "", 6⟩, 6)]
  := by
  constructor
  · rfl
  obtain ⟨chars, tokens, closed, z, z', hchars, htokens, rfl, hresults⟩ := tokenResults_fault
    [.data [0x31, 0x20], .interrupted, .data [0x2B, 0x32, 0xE2, 0x82]] [.data [0x2A, 0x33]]
    ⟨"broken pipe"⟩ [0x31, 0x20, 0x2B, 0x32, 0xE2, 0x82] rfl
  have hchars' : (ofSignals ((completePart [0x31, 0x20, 0x2B, 0x32, 0xE2, 0x82]).map
      .byte)).readChars = .ok ['1', ' ', '+', '2'] ⟨⟨[], []⟩, none, 4⟩ := by
    cbv
  have htokens' : (ofSignals ((completePart [0x31, 0x20, 0x2B, 0x32, 0xE2, 0x82]).map
      .byte)).readTokens = .ok [⟨.number, "1", 0⟩, ⟨.operator, "+", 2⟩, ⟨.number, "2", 3⟩]
        ⟨⟨[], []⟩, none, 4⟩ := by
    apply readTokens_of_ok (by cbv) (by decide)
    apply readTokens_of_ok (by cbv) (by decide)
    apply readTokens_of_ok (by cbv) (by decide)
    apply readTokens_of_finish (by cbv) rfl
  cases hchars.symm.trans hchars'
  cases htokens.symm.trans htokens'
  have hclosed : closedTokens ['1', ' ', '+', '2'].length
      [⟨.number, "1", 0⟩, ⟨.operator, "+", 2⟩, ⟨.number, "2", 3⟩]
        = [⟨.number, "1", 0⟩, ⟨.operator, "+", 2⟩] := by
    decide
  rw [hclosed] at hresults
  apply (hresults 3).trans (by cbv)

end Abacus
