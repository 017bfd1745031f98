import Mathlib
import Abacus.Parse.Session

/-!
# Progress of the reading of tokens

The bytes left of a reader are those that its source has not given yet, those put back and those of the
character put back. The reading of a token never leaves more of them than it finds,
`CharSource.bytesLeft_readToken_le`, be its result a token, a marker of the end or a fault, and a token
other than a marker of the end takes at least one. So the tokens up to the next marker of the end are
read by at most one reading more than there are bytes left,
`CharReader.readTokensWithin_of_bytesLeft_lt`, and whatever has been read before, there are no more bytes
left than the source has given, `readToken_progress`.
-/

namespace Abacus

namespace CharReader

/-- Each token other than a marker of the end takes a byte, so there is one reading at most for each
byte, and one for the marker. -/
theorem readTokensWithin_of_bytesLeft_lt {n : Nat} {r : CharReader} (h : r.bytesLeft < n) :
  readTokensWithin n r = some r.readTokens
  := by
  induction n generalizing r with
  | zero => cases h
  | succ n ih =>
    rw [readTokensWithin, readTokens_eq]
    cases htoken : r.readToken with
    | error f r' => rfl
    | ok t r' =>
      dsimp only
      split
      · rfl
      · next ht =>
        have hless : r'.bytesLeft < r.bytesLeft := CharSource.bytesLeft_readToken_lt htoken ht
        rw [ih (Nat.lt_of_lt_of_le hless (Nat.le_of_lt_succ h))]
        cases r'.readTokens <;> rfl

end CharReader

/-! ### Calls -/

section

open CharSource

variable {ρ : Type} [CharSource ρ]

theorem ReaderCall.bytesLeft_answer_le (call : ReaderCall) (r : ρ) :
  bytesLeft (call.answer r).2 ≤ bytesLeft r
  := by
  cases call with
  | position => apply Nat.le_refl
  | token =>
    have hleft : (ReaderCall.token.answer r).2 = (readToken r).rest := Outcome.snd_split_toPulled _
    rw [hleft]
    apply bytesLeft_readToken_le rfl
  | tokens =>
    have hleft : (ReaderCall.tokens.answer r).2 = (readTokens r).rest := Outcome.snd_split_toPulled _
    rw [hleft]
    apply bytesLeft_readTokens_le rfl

theorem bytesLeft_readerAnswers_le (calls : List ReaderCall) (r : ρ) :
  bytesLeft (readerAnswers calls r).2 ≤ bytesLeft r
  := by
  induction calls generalizing r with
  | nil => apply Nat.le_refl
  | cons call calls ih => apply Nat.le_trans (ih _) (call.bytesLeft_answer_le r)

end

theorem CharReader.bytesLeft_ofSignals (signals : List Signal) :
  (CharReader.ofSignals signals).bytesLeft = signals.countP Signal.isByte
  := Nat.zero_add _

/-- Behind any calls made on the reader of a script, a token other than a marker of the end leaves fewer
bytes than before, and neither a marker of the end nor a fault leaves more. There are at most the bytes
of the script, and all tokens are read within one reading more than there are bytes. -/
theorem readToken_progress {script : List Delivery} {calls : List ReaderCall}
    {answers : List ReaderAnswer} {r : CharReader}
    (h : readerAnswers calls (CharReader.ofSignals (signals script)) = (answers, r)) :
  (∀ t r', r.readToken = .ok t r' → t.kind ≠ .finish → r'.bytesLeft < r.bytesLeft)
    ∧ (∀ t r', r.readToken = .ok t r' → t.kind = .finish → r'.bytesLeft ≤ r.bytesLeft)
    ∧ (∀ f r', r.readToken = .error f r' → r'.bytesLeft ≤ r.bytesLeft)
    ∧ r.bytesLeft ≤ (signals script).countP Signal.isByte
    ∧ CharReader.readTokensWithin (r.bytesLeft + 1) r = some r.readTokens
    ∧ CharReader.readTokensWithin ((signals script).countP Signal.isByte + 1) r = some r.readTokens
  := by
  have hsource : r.bytesLeft ≤ (signals script).countP Signal.isByte := by
    have hcalls := bytesLeft_readerAnswers_le calls (CharReader.ofSignals (signals script))
    rw [h] at hcalls
    apply Nat.le_trans hcalls (Nat.le_of_eq (CharReader.bytesLeft_ofSignals (signals script)))
  refine ⟨?_, ?_, ?_, hsource, ?_, ?_⟩
  · intro t r' htoken ht
    apply CharSource.bytesLeft_readToken_lt htoken ht
  · intro t r' htoken _
    apply CharSource.bytesLeft_readToken_le htoken
  · intro f r' htoken
    apply CharSource.bytesLeft_readToken_le htoken
  · apply CharReader.readTokensWithin_of_bytesLeft_lt (Nat.lt_succ_self _)
  · apply CharReader.readTokensWithin_of_bytesLeft_lt (Nat.lt_succ_of_le hsource)

/-- The number ends before a sequence that breaks off. Its last three bytes and the one that its first
byte was read as a character from are put back, but the number has taken a byte. -/
theorem readToken_progress_putBack :
  ∃ answers r t r', readerAnswers [.token]
      (CharReader.ofSignals (signals [.data [0x2B, 0x31, 0xF0, 0x9F, 0x98, 0x41]])) = (answers, r)
    ∧ r.readToken = .ok t r' ∧ t.kind = .number
    ∧ r'.bytes.waiting = [0x9F, 0x98, 0x41] ∧ r'.held.map SizedChar.char = some replacement
    ∧ r'.bytesLeft < r.bytesLeft ∧ r.bytesLeft ≤ 6
    ∧ CharReader.readTokensWithin 7 r = some r.readTokens
  := by
  have hcalls : readerAnswers [.token]
      (CharReader.ofSignals (signals [.data [0x2B, 0x31, 0xF0, 0x9F, 0x98, 0x41]]))
      = ([.token (.ok ⟨.operator, "+", 0⟩)],
        ⟨⟨[.byte 0x31, .byte 0xF0, .byte 0x9F, .byte 0x98, .byte 0x41], []⟩, none, 1⟩) := by
    cbv
  have htoken : CharReader.readToken
      ⟨⟨[.byte 0x31, .byte 0xF0, .byte 0x9F, .byte 0x98, .byte 0x41], []⟩, none, 1⟩
      = .ok ⟨.number, "1", 1⟩
        ⟨⟨[], [0x9F, 0x98, 0x41]⟩, some ⟨replacement, 1, Nat.one_pos⟩, 2⟩ := by
    cbv
  obtain ⟨hless, -, -, hsource, -, hwithin⟩ := readToken_progress hcalls
  exact ⟨_, _, _, _, hcalls, htoken, rfl, rfl, rfl, hless _ _ htoken (by decide), hsource, hwithin⟩

end Abacus
