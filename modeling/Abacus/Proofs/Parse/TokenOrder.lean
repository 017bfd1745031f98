import Mathlib
import Abacus.Parse.TokenCall
import Abacus.Proofs.Parse.Pulling

/-!
# The order of the tokens handed over

Whatever calls for tokens are made on a supply, what they have handed over and the token in front are
together what the supply has been asked for. A look keeps this, `InOrder.look`, and so does taking the
token in front, `InOrder.dropFront`, so every call does, `InOrder.answer`. Hence nothing is lost,
repeated or put in another place, and the supply is never asked for more than one result ahead of what
is handed over, `tokenAnswers_in_order`.
-/

namespace Abacus

open TokenSupply

section

variable {σ : Type} [TokenSupply σ]

/-! ### Single calls -/

namespace TokenCall

variable {l l' : Buffered σ} {t : Token} {error : ParseError}

theorem answer_look (h : l.look = .ok t l') :
  look.answer l = (.ok t, l')
  := by
  rw [answer, h]
  rfl

theorem answer_take (h : l.look = .ok t l') :
  take.answer l = (.ok t, l'.dropFront)
  := by
  rw [answer, Buffered.take_of_look_ok h]
  rfl

theorem answer_of_look_error (h : l.look = .error error l') (call : TokenCall) :
  call.answer l = (.error error, l')
  := by
  cases call with
  | look =>
    rw [answer, h]
    rfl
  | take =>
    rw [answer, Buffered.take_of_look_error h]
    rfl

theorem look_of_answer_error {call : TokenCall} (h : call.answer l = (.error error, l')) :
  l.look = .error error l'
  := by
  cases hlook : l.look with
  | ok t l₁ =>
    cases call with
    | look => cases (answer_look hlook).symm.trans h
    | take => cases (answer_take hlook).symm.trans h
  | error error₁ l₁ =>
    cases (answer_of_look_error hlook call).symm.trans h
    rfl

/-- With no token in front every call asks the supply. -/
theorem fst_answer_of_front (h : l.front = none) (call : TokenCall) :
  (call.answer l).1 = (pull l.supply).split.1
  := by
  obtain ⟨s, front⟩ := l
  obtain rfl : front = none := h
  cases hpull : pull s with
  | ok t s' =>
    have hlook := look_of_pull_ok hpull
    cases call with
    | look =>
      rw [answer_look hlook]
      rfl
    | take =>
      rw [answer_take hlook]
      rfl
  | error error s' =>
    rw [answer_of_look_error (look_of_pull_error hpull)]
    rfl

end TokenCall

/-- A look fails only if there is no token in front, and leaves none. -/
theorem Buffered.front_of_look_error {l l' : Buffered σ} {error : ParseError}
    (h : l.look = .error error l') :
  l.front = none ∧ l'.front = none
  := by
  obtain ⟨s, _ | t⟩ := l
  · rw [look] at h
    dsimp only at h
    split at h
    · cases h
      exact ⟨rfl, rfl⟩
    · cases h
  · cases h

/-- A token that has been looked at is given by every later look, and by the call that takes it. -/
theorem Buffered.tokenAnswers_of_look {l l' : Buffered σ} {t : Token} (h : l.look = .ok t l')
    (k : Nat) :
  (l'.tokenAnswers (List.replicate k .look ++ [.take])).1 = List.replicate (k + 1) (.ok t)
  := by
  have hagain : l'.look = .ok t l' := look_of_front (front_of_look_ok h)
  induction k with
  | zero =>
    simp only [List.replicate_zero, List.nil_append, tokenAnswers, TokenCall.answer_take hagain]
    rfl
  | succ k ih =>
    rw [List.replicate_succ, List.cons_append, tokenAnswers, TokenCall.answer_look hagain]
    dsimp only
    rw [ih]
    rfl

theorem handedOver_cons (call : TokenCall) (calls : List TokenCall)
    (answer : Except ParseError Token) (answers : List (Except ParseError Token)) :
  handedOver (call :: calls) (answer :: answers)
    = handedOver [call] [answer] ++ handedOver calls answers
  := by
  simp only [handedOver]
  split <;> rfl

/-! ### What the supply has been asked for -/

/-- The last of the requests is made behind the others. -/
theorem pulls_succ_eq_append (n : Nat) (s : σ) :
  pulls (n + 1) s
    = ((pulls n s).1 ++ [(pull (pulls n s).2).split.1], (pull (pulls n s).2).split.2)
  := by
  induction n generalizing s with
  | zero => rfl
  | succ n ih =>
    rw [pulls]
    dsimp only
    rw [ih (pull s).split.2]
    rfl

/-- The supply `s` has been asked for the results handed over, and for the token in front of `l` if
there is one. -/
structure InOrder (s : σ) (given : List (Except ParseError Token)) (l : Buffered (Recorded σ)) :
    Prop where
  record_eq : l.supply.record = given ++ l.front.toList.map .ok
  pulls_eq : pulls l.supply.record.length s = (l.supply.record, l.supply.supply)

namespace InOrder

variable {s : σ} {given : List (Except ParseError Token)} {l l' : Buffered (Recorded σ)}

theorem start (s : σ) :
  InOrder s [] (Recorded.start s)
  := ⟨rfl, rfl⟩

/-- The result that the supply gives next is handed over behind the others. -/
theorem pulled (h : InOrder s given l) (hfront : l.front = none) :
  InOrder s (given ++ [(pull l.supply).split.1]) ⟨(pull l.supply).split.2, none⟩
  := by
  obtain ⟨hrecord, hpulls⟩ := h
  rw [hfront, Option.toList_none, List.map_nil, List.append_nil] at hrecord
  rw [split_pull_recorded, hrecord]
  constructor
  · apply (List.append_nil _).symm
  · rw [List.length_append, List.length_singleton, pulls_succ_eq_append, ← hrecord, hpulls]

/-- The token in front is handed over where it is taken. -/
theorem dropFront_iff {t : Token} (hfront : l.front = some t) :
  InOrder s (given ++ [.ok t]) l.dropFront ↔ InOrder s given l
  := by
  have hresults : given ++ l.front.toList.map .ok = given ++ [.ok t] ++ [] := by
    rw [hfront, List.append_nil]
    rfl
  constructor
  · rintro ⟨hrecord, hpulls⟩
    exact ⟨hrecord.trans hresults.symm, hpulls⟩
  · rintro ⟨hrecord, hpulls⟩
    exact ⟨hrecord.trans hresults, hpulls⟩

/-- A token that is looked at is in front and not handed over. -/
theorem look {t : Token} (h : InOrder s given l) (hlook : l.look = .ok t l') :
  InOrder s given l'
  := by
  obtain ⟨supply, _ | u⟩ := l
  · cases hpull : pull supply with
    | ok u supply' =>
      cases (look_of_pull_ok hpull).symm.trans hlook
      have hpulled := h.pulled rfl
      rw [hpull] at hpulled
      apply (dropFront_iff rfl).mp hpulled
    | error error supply' => cases (look_of_pull_error hpull).symm.trans hlook
  · cases hlook
    apply h

/-- An error is handed over at once. -/
theorem look_error {error : ParseError} (h : InOrder s given l)
    (hlook : l.look = .error error l') :
  InOrder s (given ++ [.error error]) l'
  := by
  obtain ⟨supply, _ | u⟩ := l
  · cases hpull : pull supply with
    | ok u supply' => cases (look_of_pull_ok hpull).symm.trans hlook
    | error error supply' =>
      cases (look_of_pull_error hpull).symm.trans hlook
      have hpulled := h.pulled rfl
      rw [hpull] at hpulled
      apply hpulled
  · cases hlook

/-- Each call hands over the next result, or leaves it in front. -/
theorem answer (h : InOrder s given l) (call : TokenCall) :
  InOrder s (given ++ handedOver [call] [(call.answer l).1]) (call.answer l).2
  := by
  cases hlook : l.look with
  | ok t l' =>
    have hfront := h.look hlook
    cases call with
    | look =>
      have hnone : handedOver [.look] [.ok t] = [] := rfl
      rw [TokenCall.answer_look hlook, hnone, List.append_nil]
      apply hfront
    | take =>
      rw [TokenCall.answer_take hlook]
      apply (dropFront_iff (Buffered.front_of_look_ok hlook)).mpr hfront
  | error error l' =>
    rw [TokenCall.answer_of_look_error hlook]
    cases call <;> apply h.look_error hlook

/-- Whatever calls are made, the results are handed over in their order. -/
theorem tokenAnswers (h : InOrder s given l) (calls : List TokenCall) :
  InOrder s (given ++ handedOver calls (l.tokenAnswers calls).1) (l.tokenAnswers calls).2
  := by
  induction calls generalizing given l with
  | nil =>
    rw [Buffered.tokenAnswers, handedOver, List.append_nil]
    · apply h
    · nofun
  | cons call calls ih =>
    rw [Buffered.tokenAnswers]
    dsimp only
    rw [handedOver_cons, ← List.append_assoc]
    apply ih (h.answer call)

/-- Behind an error every call gives the result that comes next. -/
theorem fst_pulls_succ (h : InOrder s given l) (hfront : l.front = none) (call : TokenCall) :
  (pulls (given.length + 1) s).1 = given ++ [(call.answer l).1]
  := by
  have hpulled := h.pulled hfront
  have hlength : (pull l.supply).split.2.record.length = given.length + 1 := by
    rw [hpulled.record_eq]
    simp
  have hpulls := hpulled.pulls_eq
  rw [TokenCall.fst_answer_of_front hfront, ← hlength, hpulls, hpulled.record_eq]
  apply List.append_nil

end InOrder

/-- The answers do not depend on the record. -/
theorem fst_tokenAnswers_recorded (calls : List TokenCall) (l : Buffered (Recorded σ)) :
  (Buffered.tokenAnswers calls ⟨l.supply.supply, l.front⟩).1 = (l.tokenAnswers calls).1
  := by
  induction calls generalizing l with
  | nil => rfl
  | cons call calls ih =>
    have hanswer : call.answer (⟨l.supply.supply, l.front⟩ : Buffered σ) = ((call.answer l).1,
        ⟨(call.answer l).2.supply.supply, (call.answer l).2.front⟩) := by
      obtain ⟨⟨supply, record⟩, _ | t⟩ := l
      · cases call with
        | look =>
          simp only [TokenCall.answer, Buffered.look, pull]
          cases pull supply <;> rfl
        | take =>
          simp only [TokenCall.answer, Buffered.take, Buffered.look, pull]
          cases pull supply <;> rfl
      · cases call <;> rfl
    rw [Buffered.tokenAnswers, Buffered.tokenAnswers, hanswer]
    dsimp only
    rw [ih]

end

/-- For a finite supply the answers are those to the calls among all calls. -/
theorem answers_map_toCall {φ : Type} [FiniteSupply φ] (calls : List TokenCall) (l : Buffered φ) :
  l.answers (calls.map TokenCall.toCall)
    = ((l.tokenAnswers calls).1.map Answer.ofToken, (l.tokenAnswers calls).2)
  := by
  induction calls generalizing l with
  | nil => rfl
  | cons call calls ih =>
    have hanswer : l.answer call.toCall
        = (Answer.ofToken (call.answer l).1, (call.answer l).2) := by
      cases call with
      | look =>
        rw [TokenCall.toCall, Buffered.answer, TokenCall.answer]
        cases l.look <;> rfl
      | take =>
        rw [TokenCall.toCall, Buffered.answer, TokenCall.answer]
        cases l.take <;> rfl
    rw [List.map_cons, Buffered.answers, Buffered.tokenAnswers, hanswer]
    dsimp only
    rw [ih]
    rfl

/-- Whatever calls for tokens are made on a supply, what they hand over are the first of its results,
in their order. The supply has been asked for these, and for the token in front if there is one. A token
that is looked at is given by every look until it is taken. A call that fails leaves no token in front,
and the next call gives the result behind the error. These are the answers of a supply without a record,
and for a finite supply those to the same calls among others. -/
theorem tokenAnswers_in_order {σ : Type} [TokenSupply σ] (s : σ) (calls : List TokenCall) :
  (∃ answers given l, Buffered.tokenAnswers calls (Recorded.start s) = (answers, l)
    ∧ (Buffered.tokenAnswers calls { supply := s }).1 = answers
    ∧ given = handedOver calls answers
    ∧ given = (pulls given.length s).1
    ∧ l.supply.record = given ++ l.front.toList.map .ok
    ∧ l.supply.record.length ≤ given.length + 1
    ∧ pulls l.supply.record.length s = (l.supply.record, l.supply.supply)
    ∧ (∀ t l', l.look = .ok t l' → ∀ k,
      (Buffered.tokenAnswers (List.replicate k .look ++ [.take]) l').1
        = List.replicate (k + 1) (.ok t))
    ∧ ∀ (call : TokenCall) error l', call.answer l = (.error error, l') →
      l'.front = none
      ∧ ∀ next : TokenCall,
        (pulls (given.length + 2) s).1 = given ++ [.error error, (next.answer l').1])
    ∧ ∀ (φ : Type) [FiniteSupply φ] (l : Buffered φ),
      l.answers (calls.map TokenCall.toCall)
        = ((l.tokenAnswers calls).1.map Answer.ofToken, (l.tokenAnswers calls).2)
  := by
  refine ⟨?_, fun φ _ l => answers_map_toCall calls l⟩
  have h := (InOrder.start s).tokenAnswers calls
  rw [List.nil_append] at h
  have hlength := congrArg List.length h.record_eq
  rw [List.length_append, List.length_map, Option.length_toList] at hlength
  refine ⟨_, _, _, rfl, fst_tokenAnswers_recorded calls (Recorded.start s), rfl, ?_,
    h.record_eq, ?_, h.pulls_eq, ?_, ?_⟩
  · have htake := take_fst_pulls (Nat.le.intro hlength.symm) s
    rw [h.pulls_eq, h.record_eq, List.take_left] at htake
    apply htake
  · rw [hlength]
    apply Nat.add_le_add_left
    split <;> decide
  · intro t l' hlook k
    apply Buffered.tokenAnswers_of_look hlook k
  · intro call error l' hanswer
    have hlook := TokenCall.look_of_answer_error hanswer
    obtain ⟨-, hempty⟩ := Buffered.front_of_look_error hlook
    refine ⟨hempty, ?_⟩
    intro next
    have hnext := (h.look_error hlook).fst_pulls_succ hempty next
    rw [List.length_append, List.length_singleton, List.append_assoc] at hnext
    apply hnext

/-- An opening that is looked at twice and taken, a failed look, and the closing behind the failure. -/
theorem tokenAnswers_in_order_failure :
  ∃ l l', Buffered.tokenAnswers [.look, .look, .take] (Recorded.start (CharReader.ofSignals
        (signals [.data [0x28], .fault ⟨"gone"⟩, .data [0x29]])))
      = ([.ok ⟨.parenthesis, "(", 0⟩, .ok ⟨.parenthesis, "(", 0⟩, .ok ⟨.parenthesis, "(", 0⟩], l)
    ∧ l.supply.record = [.ok ⟨.parenthesis, "(", 0⟩]
    ∧ TokenCall.look.answer l = (.error (.readFailure ⟨"gone"⟩), l')
    ∧ l'.front = none
    ∧ (pulls 3 (CharReader.ofSignals
        (signals [.data [0x28], .fault ⟨"gone"⟩, .data [0x29]]))).1
      = [.ok ⟨.parenthesis, "(", 0⟩, .error (.readFailure ⟨"gone"⟩), (TokenCall.take.answer l').1]
    ∧ (TokenCall.take.answer l').1 = .ok ⟨.parenthesis, ")", 1⟩
  := by
  obtain ⟨⟨answers, given, l, hanswers, -, hgiven, -, hrecord, -, -, -, hfails⟩, -⟩ :=
    tokenAnswers_in_order (CharReader.ofSignals
      (signals [.data [0x28], .fault ⟨"gone"⟩, .data [0x29]])) [.look, .look, .take]
  have hrun : Buffered.tokenAnswers [.look, .look, .take] (Recorded.start (CharReader.ofSignals
        (signals [.data [0x28], .fault ⟨"gone"⟩, .data [0x29]])))
      = ([.ok ⟨.parenthesis, "(", 0⟩, .ok ⟨.parenthesis, "(", 0⟩, .ok ⟨.parenthesis, "(", 0⟩],
        ⟨⟨⟨⟨[.fault ⟨"gone"⟩, .byte 0x29], []⟩, none, 1⟩, [.ok ⟨.parenthesis, "(", 0⟩]⟩, none⟩) := by
    cbv
  cases hanswers.symm.trans hrun
  subst hgiven
  obtain ⟨hfront, hnext⟩ := hfails .look (.readFailure ⟨"gone"⟩)
    ⟨⟨⟨⟨[.byte 0x29], []⟩, none, 1⟩,
      [.ok ⟨.parenthesis, "(", 0⟩, .error (.readFailure ⟨"gone"⟩)]⟩, none⟩ (by cbv)
  exact ⟨_, _, hrun, hrecord, by cbv, hfront, hnext .take, by cbv⟩

end Abacus
