import Abacus.Proofs.Input.Representation
import Abacus.Proofs.Parse.Rechunking

/-!
# The representation of what has been read for tokens

The reading of tokens makes allowed steps only: a character is put back right after it was read, and the
position of the first character of a token is asked for behind that character. So the log of a reader
leads to it after the reading of a token, `LoggedReader.ComesFrom.readToken`, and of all tokens,
`LoggedReader.ComesFrom.readTokens`, whether it succeeds or fails, and after any calls made on a reader
it agrees with what has been done, `readerAnswers_representation`.
-/

namespace Abacus

namespace LoggedReader

/-! ### Tokens -/

/-- The first character that is no blank was read last. -/
theorem hasRead_of_skipBlanks {r r' : LoggedReader} {c : SizedChar}
    (h : CharSource.skipBlanks r = .ok (some c) r') :
  r'.HasRead c
  := by
  fun_induction CharSource.skipBlanks r with
  | case1 | case2 => cases h
  | case3 r d r₁ hread hd ih => apply ih h
  | case4 r d r₁ hread hd =>
    cases h
    apply hasRead_of_read hread

namespace ComesFrom

variable {start : CharReader} {r : LoggedReader}

theorem skipBlanks {o : Outcome LoggedReader (Option SizedChar)} (h : ComesFrom start r)
    (ho : CharSource.skipBlanks r = o) :
  ComesFrom start o.rest
  := by
  subst ho
  fun_induction CharSource.skipBlanks r with
  | case1 r f r' hread | case2 r r' hread | case4 r c r' hread hc => apply h.read hread
  | case3 r c r' hread hc ih => apply ih (h.read hread)

/-- The character that ends a run is put back right after it was read. -/
theorem takeRun {p : Char → Bool} {o : Outcome LoggedReader (List Char)} (h : ComesFrom start r)
    (ho : CharSource.takeRun p r = o) :
  ComesFrom start o.rest
  := by
  subst ho
  fun_induction CharSource.takeRun p r with
  | case1 r f r' hread | case2 r r' hread => apply h.read hread
  | case3 r c r' hread hc f r₁ hrest ih | case4 r c r' hread hc chars r₁ hrest ih =>
    have hrun := ih (h.read hread)
    rw [hrest] at hrun
    apply hrun
  | case5 r c r' hread hc =>
    apply ComesFrom.putBack (h.read hread)
    apply hasRead_of_read hread

/-- The position of the first character of a token is asked for right behind it. -/
theorem readToken {o : Outcome LoggedReader Token} (h : ComesFrom start r)
    (ho : CharSource.readToken r = o) :
  ComesFrom start o.rest
  := by
  subst ho
  fun_cases CharSource.readToken r with
  | case1 f r' hblanks | case2 r' hblanks => apply h.skipBlanks hblanks
  | case3 first r' hblanks kind position r₁ hlocate hkind =>
    apply locate (h.skipBlanks hblanks) (hasRead_of_skipBlanks hblanks) hlocate
  | case4 first r' hblanks kind position r₁ hlocate p hkind f r₂ hrun
  | case5 first r' hblanks kind position r₁ hlocate p hkind chars r₂ hrun =>
    have hfirst : ComesFrom start r₁ :=
      locate (h.skipBlanks hblanks) (hasRead_of_skipBlanks hblanks) hlocate
    apply hfirst.takeRun hrun

theorem readTokens {o : Outcome LoggedReader (List Token)} (h : ComesFrom start r)
    (ho : CharSource.readTokens r = o) :
  ComesFrom start o.rest
  := by
  subst ho
  fun_induction CharSource.readTokens r with
  | case1 r f r' htoken | case2 r t r' htoken ht => apply h.readToken htoken
  | case3 r t r' htoken ht f r₁ hrest ih | case4 r t r' htoken ht tokens r₁ hrest ih =>
    have htokens := ih (h.readToken htoken)
    rw [hrest] at htokens
    apply htokens

end ComesFrom

/-! ### Calls -/

namespace ComesFrom

variable {start : CharReader} {r : LoggedReader}

/-- Each call makes allowed steps only, whether it succeeds or fails. -/
theorem answer (h : ComesFrom start r) (call : ReaderCall) :
  ComesFrom start (call.answer r).2
  := by
  cases call with
  | position => apply h
  | token =>
    have hleft : (ReaderCall.token.answer r).2 = (CharSource.readToken r).rest := Outcome.snd_split_toPulled _
    rw [hleft]
    apply h.readToken rfl
  | tokens =>
    have hleft : (ReaderCall.tokens.answer r).2 = (CharSource.readTokens r).rest := Outcome.snd_split_toPulled _
    rw [hleft]
    apply h.readTokens rfl

theorem readerAnswers (h : ComesFrom start r) (calls : List ReaderCall) :
  ComesFrom start (Abacus.readerAnswers calls r).2
  := by
  induction calls generalizing r with
  | nil => apply h
  | cons call calls ih => apply ih (h.answer call)

end ComesFrom

end LoggedReader

/-- Whatever calls are made on the reader of a script, they make allowed steps only, which lead to the
reader that is left, and this reader agrees with the steps. The log changes neither the answers nor the
reader. -/
theorem readerAnswers_representation (script : List Delivery) (calls : List ReaderCall) :
  ∃ answers r, readerAnswers calls (LoggedReader.ofSignals (signals script)) = (answers, r)
    ∧ readerAnswers calls (CharReader.ofSignals (signals script)) = (answers, r.reader)
    ∧ r.log.LeadsTo (CharReader.ofSignals (signals script)) r.reader
    ∧ r.reader.AgreesWith r.log
  := by
  have hlog := (LoggedReader.ComesFrom.ofSignals (signals script)).readerAnswers calls
  have hview := CharSource.isReaderView.readerAnswers_eq calls
    (LoggedReader.ofSignals (signals script))
  exact ⟨_, _, rfl, hview, hlog, hlog.agreesWith (.ofSignals _)⟩

/-- A number before a sequence that breaks off. Three bytes are put back, and so is the character that was
decoded from the first one. -/
example :
  let r := (readerAnswers [.token]
    (LoggedReader.ofSignals (signals [.data [0x31, 0xF0, 0x9F, 0x98, 0x41]]))).2
  r.reader.bytes.waiting = [0x9F, 0x98, 0x41] ∧ r.reader.held.isSome
    ∧ r.reader.position = 1 ∧ r.log.decoded = 2
  := by
  cbv

end Abacus
