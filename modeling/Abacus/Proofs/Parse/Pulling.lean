import Abacus.Parse.Record
import Abacus.Proofs.Parse.Course
import Abacus.Proofs.Parse.ViablePrefix

/-!
# What a reading pulls from its supply

The reading of a whole supply is decided by the results that it pulls one after the other,
`Draft.Pulls`: an error or a marker of the end decides it in any case, and a token that is refused does
so before. The course of a reading pulls these results and no more, `Course.pulls`, and every supply
that begins with them is read the same way, `Draft.Pulls.exists_course`. So a reading ends where its
supply comes to an end or fails, and what is behind the result that it reports on has no influence,
`parse_pulls_up_to_reported`.
-/

namespace Abacus

open TokenSupply

/-! ### Results one after the other -/

section

variable {σ : Type} [TokenSupply σ]

theorem pulls_succ_of_ok {s s' : σ} {t : Token} (h : pull s = .ok t s') (n : Nat) :
  pulls (n + 1) s = (.ok t :: (pulls n s').1, (pulls n s').2)
  := by
  rw [pulls, h]
  rfl

theorem pulls_succ_of_error {s s' : σ} {error : ParseError} (h : pull s = .error error s')
    (n : Nat) :
  pulls (n + 1) s = (.error error :: (pulls n s').1, (pulls n s').2)
  := by
  rw [pulls, h]
  rfl

/-- If the results begin with a token, it is given by the first request. -/
theorem exists_pull_ok {s : σ} {t : Token} {results : List (Except ParseError Token)} {n : Nat}
    (h : (pulls (n + 1) s).1 = .ok t :: results) :
  ∃ s', pull s = .ok t s' ∧ (pulls n s').1 = results
  := by
  cases hpull : pull s with
  | ok u s' =>
    rw [pulls_succ_of_ok hpull] at h
    obtain ⟨hfirst, hrest⟩ := List.cons.inj h
    cases hfirst
    exact ⟨s', rfl, hrest⟩
  | error error s' =>
    rw [pulls_succ_of_error hpull] at h
    cases (List.cons.inj h).1

/-- If the results begin with an error, the first request fails with it. -/
theorem exists_pull_error {s : σ} {error : ParseError} {results : List (Except ParseError Token)}
    {n : Nat} (h : (pulls (n + 1) s).1 = .error error :: results) :
  ∃ s', pull s = .error error s'
  := by
  cases hpull : pull s with
  | ok u s' =>
    rw [pulls_succ_of_ok hpull] at h
    cases (List.cons.inj h).1
  | error error' s' =>
    rw [pulls_succ_of_error hpull] at h
    cases (List.cons.inj h).1
    exact ⟨s', rfl⟩

/-- Fewer requests give the first of the results. -/
theorem take_fst_pulls {m n : Nat} (hle : m ≤ n) (s : σ) :
  (pulls n s).1.take m = (pulls m s).1
  := by
  induction m generalizing n s with
  | zero => rfl
  | succ m ih =>
    obtain ⟨n, rfl⟩ := Nat.exists_eq_add_one_of_ne_zero (Nat.ne_zero_of_lt hle)
    have hrest := ih (Nat.le_of_succ_le_succ hle)
    cases hpull : pull s with
    | ok t s' => rw [pulls_succ_of_ok hpull, pulls_succ_of_ok hpull, List.take_succ_cons, hrest]
    | error error s' =>
      rw [pulls_succ_of_error hpull, pulls_succ_of_error hpull, List.take_succ_cons, hrest]

/-- A recorded supply gives what the supply gives, and adds it to the record. -/
theorem split_pull_recorded (s : Recorded σ) :
  (pull s).split = ((pull s.supply).split.1,
    ⟨(pull s.supply).split.2, s.record ++ [(pull s.supply).split.1]⟩)
  := by
  rw [pull, instTokenSupplyRecorded]
  dsimp only
  cases pull s.supply <;> rfl

/-- The results of a recorded supply are those of the supply, and all of them are in the record. -/
theorem pulls_recorded (n : Nat) (s : Recorded σ) :
  (pulls n s).1 = (pulls n s.supply).1
    ∧ (pulls n s).2.record = s.record ++ (pulls n s.supply).1
  := by
  induction n generalizing s with
  | zero => exact ⟨rfl, (List.append_nil s.record).symm⟩
  | succ n ih =>
    rw [pulls, pulls, split_pull_recorded]
    dsimp only
    obtain ⟨hresults, hrecord⟩ :=
      ih ⟨(pull s.supply).split.2, s.record ++ [(pull s.supply).split.1]⟩
    rw [hresults, hrecord, List.append_assoc]
    exact ⟨rfl, rfl⟩

end

/-! ### The results that decide a reading -/

/-- The result is an error or a marker of the end: no expression goes on behind it. -/
def endsReading : Except ParseError Token → Bool
  | .ok t => t.isFinish
  | .error _ => true

/-- The outcome of a reading reports on the result. -/
inductive ReportsOn : Except ParseError Token → Except ParseError Expr → Prop
  /-- The supply has failed. -/
  | failure (error : ParseError) : ReportsOn (.error error) (.error error)
  /-- A marker of the end is behind the expression. -/
  | success {t : Token} (ht : t.isFinish) (e : Expr) : ReportsOn (.ok t) (.ok e)
  /-- A marker of the end stands where the expression has to go on. -/
  | unexpectedEnd {t : Token} (ht : t.isFinish) (expected : Expected) :
      ReportsOn (.ok t) (.error (.unexpectedEnd t.position expected))
  /-- Another token is refused. -/
  | refused {t : Token} {error : ParseError} (ht : ¬ t.isFinish) (h : error.Blames t) :
      ReportsOn (.ok t) (.error error)

namespace Draft

/-- The reading of the whole from the draft pulls the results, of which it takes the tokens, and comes
to the outcome. -/
inductive Pulls :
    Draft → List (Except ParseError Token) → List Token → Except ParseError Expr → Prop
  | failed (d : Draft) (error : ParseError) : Pulls d [.error error] [] (.error error)
  | finished {d : Draft} {t : Token} {e : Expr} (hmove : (d.step .whole t).move = .finish e) :
      Pulls d [.ok t] [] (.ok e)
  | rejected {d : Draft} {t : Token} {error : ParseError} {taken : Bool}
      (hmove : (d.step .whole t).move = .reject error taken) :
      Pulls d [.ok t] (if taken then [t] else []) (.error error)
  | taken {d next : Draft} {t : Token} {results : List (Except ParseError Token)}
      {tokens : List Token} {outcome : Except ParseError Expr}
      (hmove : (d.step .whole t).move = .take next) (hrest : Pulls next results tokens outcome) :
      Pulls d (.ok t :: results) (t :: tokens) outcome

/-- A token that is refused is the one reported on. -/
theorem reportsOn_of_reject {d : Draft} {t : Token} {error : ParseError} {taken : Bool}
    (h : (d.step .whole t).move = .reject error taken) :
  ReportsOn (.ok t) (.error error)
  := by
  rcases error_of_reject h with ⟨expected, rfl⟩ | ⟨ht, hblames⟩
  · rw [ParseError.unexpected]
    split
    · next ht => apply ReportsOn.unexpectedEnd ht
    · next ht => apply ReportsOn.refused ht (.unexpectedToken expected)
  · apply ReportsOn.refused ht hblames

variable {d : Draft} {results : List (Except ParseError Token)} {tokens : List Token}
  {outcome : Except ParseError Expr}

/-- The last of the results is reported on, and the others are tokens before the end. -/
theorem Pulls.exists_last (h : d.Pulls results tokens outcome) :
  ∃ (front : List Token) (last : Except ParseError Token), results = front.map .ok ++ [last]
    ∧ (∀ t ∈ front, ¬ t.isFinish) ∧ ReportsOn last outcome
  := by
  induction h with
  | failed d error => exact ⟨[], .error error, rfl, List.forall_mem_nil _, .failure error⟩
  | @finished d t e hmove =>
    exact ⟨[], .ok t, rfl, List.forall_mem_nil _, .success (isFinish_of_move hmove) e⟩
  | @rejected d t error taken hmove =>
    exact ⟨[], .ok t, rfl, List.forall_mem_nil _, reportsOn_of_reject hmove⟩
  | @taken d next t results tokens outcome hmove _ ih =>
    obtain ⟨front, last, rfl, hfront, hlast⟩ := ih
    refine ⟨t :: front, last, rfl, ?_, hlast⟩
    rw [List.forall_mem_cons]
    exact ⟨not_isFinish_of_take hmove, hfront⟩

/-- A supply that comes to a marker of the end or to an error decides the reading. -/
theorem exists_pulls {σ : Type} [TokenSupply σ] (d : Draft) {s : σ} {n : Nat}
    (h : ∃ result ∈ (pulls n s).1, endsReading result) :
  ∃ results tokens outcome, d.Pulls results tokens outcome
    ∧ (pulls results.length s).1 = results
  := by
  induction n generalizing d s with
  | zero =>
    obtain ⟨result, hresult, -⟩ := h
    cases hresult
  | succ n ih =>
    cases hpull : pull s with
    | error error s' =>
      refine ⟨_, _, _, .failed d error, ?_⟩
      rw [List.length_singleton, pulls_succ_of_error hpull]
      rfl
    | ok t s' =>
      have hfirst : (pulls 1 s).1 = [.ok t] := by
        rw [pulls_succ_of_ok hpull]
        rfl
      cases hmove : (d.step .whole t).move with
      | finish e => exact ⟨_, _, _, .finished hmove, hfirst⟩
      | reject error taken => exact ⟨_, _, _, .rejected hmove, hfirst⟩
      | take next =>
        -- The token is none of the end, so what ends the reading is behind it.
        have hmore : ∃ result ∈ (pulls n s').1, endsReading result := by
          obtain ⟨result, hresult, hends⟩ := h
          rw [pulls_succ_of_ok hpull] at hresult
          rcases List.mem_cons.mp hresult with rfl | hresult
          · apply absurd hends (not_isFinish_of_take hmove)
          · exact ⟨result, hresult, hends⟩
        obtain ⟨results, tokens, outcome, hpulls, hresults⟩ := ih next hmore
        refine ⟨_, _, _, .taken hmove hpulls, ?_⟩
        rw [List.length_cons, pulls_succ_of_ok hpull, hresults]

end Draft

/-! ### Courses of the whole -/

section

variable {σ : Type} [TokenSupply σ]

theorem look_of_pull_ok {s s' : σ} {t : Token} (h : pull s = .ok t s') :
  ({ supply := s } : Buffered σ).look = .ok t ⟨s', some t⟩
  := by
  simp only [Buffered.look, h]

theorem look_of_pull_error {s s' : σ} {error : ParseError} (h : pull s = .error error s') :
  ({ supply := s } : Buffered σ).look = .error error { supply := s' }
  := by
  simp only [Buffered.look, h]

/-- The course of a reading of the whole pulls the results that decide it and leaves what is behind
them. -/
theorem Course.pulls {d : Draft} {l : Buffered σ} {tokens : List Token} {r : Report σ}
    (h : Course .whole d l tokens r) (hl : l.front = none) :
  ∃ results, d.Pulls results tokens r.result
    ∧ TokenSupply.pulls results.length l.supply = (results, r.rest.supply)
  := by
  induction h with
  | met hgoal => cases (Draft.result?_whole _).symm.trans hgoal
  | @failed d l l' error _ hlook =>
    obtain ⟨s, _⟩ := l
    obtain rfl : _ = none := hl
    cases hpull : pull s with
    | ok t s' => cases (look_of_pull_ok hpull).symm.trans hlook
    | error error' s' =>
      cases (look_of_pull_error hpull).symm.trans hlook
      exact ⟨_, .failed d error, pulls_succ_of_error hpull 0⟩
  | @finished d l l' t e _ hlook hmove =>
    obtain ⟨s, _⟩ := l
    obtain rfl : _ = none := hl
    cases hpull : pull s with
    | ok u s' =>
      cases (look_of_pull_ok hpull).symm.trans hlook
      exact ⟨_, .finished hmove, pulls_succ_of_ok hpull 0⟩
    | error error' s' => cases (look_of_pull_error hpull).symm.trans hlook
  | @rejected d l l' t error taken _ hlook hmove =>
    obtain ⟨s, _⟩ := l
    obtain rfl : _ = none := hl
    cases hpull : pull s with
    | ok u s' =>
      cases (look_of_pull_ok hpull).symm.trans hlook
      refine ⟨_, .rejected hmove, ?_⟩
      rw [List.length_singleton, pulls_succ_of_ok hpull]
      cases taken <;> rfl
    | error error' s' => cases (look_of_pull_error hpull).symm.trans hlook
  | @taken d next l l' t tokens r _ hlook hmove _ ih =>
    obtain ⟨s, _⟩ := l
    obtain rfl : _ = none := hl
    cases hpull : pull s with
    | ok u s' =>
      cases (look_of_pull_ok hpull).symm.trans hlook
      obtain ⟨results, hpulls, hresults⟩ := ih rfl
      refine ⟨_, .taken hmove hpulls, ?_⟩
      rw [List.length_cons, pulls_succ_of_ok hpull]
      rw [Buffered.dropFront] at hresults
      rw [hresults]
      rfl
    | error error' s' => cases (look_of_pull_error hpull).symm.trans hlook

/-- Every supply that begins with the results that decide a reading is read to the same outcome. -/
theorem Draft.Pulls.exists_course {d : Draft} {results : List (Except ParseError Token)}
    {tokens : List Token} {outcome : Except ParseError Expr} (h : d.Pulls results tokens outcome)
    {s : σ} (hs : (TokenSupply.pulls results.length s).1 = results) :
  ∃ r : Report σ, Course .whole d { supply := s } tokens r ∧ r.result = outcome
  := by
  induction h generalizing s with
  | failed d error =>
    obtain ⟨s', hpull⟩ := exists_pull_error hs
    exact ⟨_, .failed (result?_whole d) (look_of_pull_error hpull), rfl⟩
  | @finished d t e hmove =>
    obtain ⟨s', hpull, -⟩ := exists_pull_ok hs
    exact ⟨_, .finished (result?_whole d) (look_of_pull_ok hpull) hmove, rfl⟩
  | @rejected d t error taken hmove =>
    obtain ⟨s', hpull, -⟩ := exists_pull_ok hs
    exact ⟨_, .rejected (result?_whole d) (look_of_pull_ok hpull) hmove, rfl⟩
  | @taken d next t results tokens outcome hmove _ ih =>
    obtain ⟨s', hpull, hrest⟩ := exists_pull_ok hs
    obtain ⟨r, hcourse, hr⟩ := ih hrest
    exact ⟨_, .taken (result?_whole d) (look_of_pull_ok hpull) hmove hcourse, hr⟩

/-- The results that are tokens before the end are fewer than those up to an error or a marker of the
end. -/
theorem length_lt_of_endsReading {s : σ} {front : List Token} {last : Except ParseError Token}
    (hs : (pulls (front.length + 1) s).1 = front.map .ok ++ [last])
    (hfront : ∀ t ∈ front, ¬ t.isFinish) {n : Nat}
    (h : ∃ result ∈ (pulls n s).1, endsReading result) :
  front.length < n
  := by
  apply Nat.lt_of_not_le
  intro hle
  obtain ⟨result, hresult, hends⟩ := h
  rw [← take_fst_pulls (Nat.le_succ_of_le hle), hs,
    List.take_append_of_le_length (by rwa [List.length_map])] at hresult
  obtain ⟨t, ht, rfl⟩ := List.mem_map.mp (List.mem_of_mem_take hresult)
  exact hfront t ht hends

end

/-- A list is a supply that comes to a marker of the end behind its tokens. -/
theorem exists_endsReading_of_list (tokens : List Token) (finish : Nat) :
  ∃ result ∈ (pulls (tokens.length + 1) (TokenList.mk tokens finish)).1, endsReading result
  := by
  induction tokens with
  | nil => exact ⟨.ok (.finish finish), List.mem_singleton_self _, rfl⟩
  | cons t tokens ih =>
    obtain ⟨result, hresult, hends⟩ := ih
    exact ⟨result, List.mem_cons_of_mem _ hresult, hends⟩

/-! ### How far a reading goes -/

section

variable {σ : Type} [TokenSupply σ] {s : σ} {results : List (Except ParseError Token)}
  {tokens : List Token} {outcome : Except ParseError Expr}

/-- A supply that begins with the results that decide the reading of the whole is read to its
outcome. -/
theorem Draft.Pulls.exists_ends (h : ({} : Draft).Pulls results tokens outcome)
    (hs : (pulls results.length s).1 = results) :
  ∃ r : Report σ, Goal.whole.Ends { supply := s } tokens r ∧ r.result = outcome
  := by
  obtain ⟨r, hcourse, hr⟩ := h.exists_course hs
  exact ⟨r, ends_iff_course.mpr hcourse, hr⟩

theorem Draft.Pulls.exists_ends_recorded (h : ({} : Draft).Pulls results tokens outcome)
    (hs : (pulls results.length s).1 = results) :
  ∃ r, Goal.whole.Ends (Recorded.start s) tokens r ∧ r.result = outcome
  := by
  apply h.exists_ends
  exact (pulls_recorded results.length { supply := s }).1.trans hs

/-- The record behind a reading holds the results that have decided it. -/
theorem pulls_record_of_ends {r : Report (Recorded σ)}
    (h : Goal.whole.Ends (Recorded.start s) tokens r) :
  ({} : Draft).Pulls r.rest.supply.record tokens r.result
    ∧ (pulls r.rest.supply.record.length s).1 = r.rest.supply.record
  := by
  obtain ⟨results, hpulls, hresults⟩ := (ends_iff_course.mp h).pulls rfl
  obtain ⟨hgiven, hkept⟩ := pulls_recorded results.length (Recorded.start s).supply
  rw [hresults] at hgiven hkept
  have heq : r.rest.supply.record = results := by
    rw [hkept, ← hgiven]
    apply List.nil_append
  rw [heq]
  exact ⟨hpulls, hgiven.symm⟩

/-- What a reading has pulled are tokens before the end and the result that it reports on. -/
theorem exists_last_of_ends {r : Report (Recorded σ)}
    (h : Goal.whole.Ends (Recorded.start s) tokens r) :
  ∃ (front : List Token) (last : Except ParseError Token),
    r.rest.supply.record = front.map .ok ++ [last]
    ∧ r.rest.supply.record.length = front.length + 1
    ∧ (pulls (front.length + 1) s).1 = r.rest.supply.record
    ∧ (∀ t ∈ front, ¬ t.isFinish)
    ∧ ReportsOn last r.result
  := by
  obtain ⟨hpulls, hresults⟩ := pulls_record_of_ends h
  obtain ⟨front, last, heq, hfront, hlast⟩ := hpulls.exists_last
  have hlength : r.rest.supply.record.length = front.length + 1 := by
    rw [heq, List.length_append, List.length_map, List.length_singleton]
  rw [hlength] at hresults
  exact ⟨front, last, heq, hlength, hresults, hfront, hlast⟩

/-- A reading pulls no more than there is up to the first marker of the end or error. -/
theorem length_record_le {r : Report (Recorded σ)} (h : Goal.whole.Ends (Recorded.start s) tokens r)
    {n : Nat} (hn : ∃ result ∈ (pulls n s).1, endsReading result) :
  r.rest.supply.record.length ≤ n
  := by
  obtain ⟨front, last, heq, hlength, hresults, hfront, -⟩ := exists_last_of_ends h
  rw [hlength]
  apply length_lt_of_endsReading (hresults.trans heq) hfront hn

end

/-- A supply that comes to a marker of the end or to an error is read to an outcome. What a reading has
pulled then are tokens before the end and the result that the outcome reports on, so no more than there
is up to the first marker of the end or error, and every supply that begins with these results is read
to the same outcome. A finite supply is read as without the record, and of a list at most one result
more is pulled than there are tokens. -/
theorem parse_pulls_up_to_reported {σ : Type} [TokenSupply σ] (s : σ) :
  ((∃ n, ∃ result ∈ (pulls n s).1, endsReading result) →
      ∃ tokens r, Goal.whole.Ends (Recorded.start s) tokens r)
    ∧ (∀ tokens r, Goal.whole.Ends (Recorded.start s) tokens r →
      ∃ (front : List Token) (last : Except ParseError Token),
        r.rest.supply.record = front.map .ok ++ [last]
        ∧ (pulls (front.length + 1) s).1 = r.rest.supply.record
        ∧ (∀ t ∈ front, ¬ t.isFinish)
        ∧ ReportsOn last r.result
        ∧ (∀ n, (∃ result ∈ (pulls n s).1, endsReading result) → r.rest.supply.record.length ≤ n)
        ∧ ∀ (τ : Type) [TokenSupply τ] (s' : τ),
          (pulls (front.length + 1) s').1 = r.rest.supply.record →
          ∃ r', Goal.whole.Ends { supply := s' } tokens r' ∧ r'.result = r.result)
    ∧ (∀ (φ : Type) [FiniteSupply φ] (s : φ), ∃ tokens r,
      Goal.whole.Ends (Recorded.start s) tokens r ∧ r.result = parse s)
    ∧ ∀ (list tokens : List Token) (r : Report (Recorded TokenList)),
      Goal.whole.Ends (Recorded.start (TokenList.ofTokens list)) tokens r →
      r.rest.supply.record.length ≤ list.length + 1
  := by
  refine ⟨?_, ?_, ?_, ?_⟩
  · rintro ⟨n, h⟩
    obtain ⟨results, tokens, outcome, hpulls, hresults⟩ := ({} : Draft).exists_pulls h
    obtain ⟨r, hends, -⟩ := hpulls.exists_ends_recorded hresults
    exact ⟨tokens, r, hends⟩
  · intro tokens r hends
    obtain ⟨front, last, heq, hlength, hresults, hfront, hlast⟩ := exists_last_of_ends hends
    refine ⟨front, last, heq, hresults, hfront, hlast, ?_, ?_⟩
    · intro n hn
      apply length_record_le hends hn
    · intro τ _ s' hs'
      rw [← hlength] at hs'
      apply (pulls_record_of_ends hends).1.exists_ends hs'
  · intro φ _ s
    obtain ⟨results, hpulls, hresults⟩ :=
      (ends_iff_course.mp (Goal.whole.ends_read { supply := s })).pulls rfl
    obtain ⟨r, hends, hr⟩ := hpulls.exists_ends_recorded (congrArg Prod.fst hresults)
    exact ⟨_, r, hends, hr⟩
  · intro list tokens r hends
    apply length_record_le hends
    apply exists_endsReading_of_list

/-- In `1 + ) 2` the closing is reported on, and neither the token behind it nor what may stand in its
place is pulled. -/
theorem parse_pulls_up_to_reported_closing :
  ∃ r, Goal.whole.Ends (Recorded.start (TokenList.ofTokens [⟨.number, "1", 0⟩,
        ⟨.operator, "+", 2⟩, ⟨.parenthesis, ")", 4⟩, ⟨.number, "2", 6⟩]))
      [⟨.number, "1", 0⟩, ⟨.operator, "+", 2⟩, ⟨.parenthesis, ")", 4⟩] r
    ∧ r.result = .error (.unexpectedToken ⟨.parenthesis, ")", 4⟩ .factor)
    ∧ r.rest.supply.record
      = [.ok ⟨.number, "1", 0⟩, .ok ⟨.operator, "+", 2⟩, .ok ⟨.parenthesis, ")", 4⟩]
    ∧ r.rest.supply.record.length ≤ 5
    ∧ ∃ r', Goal.whole.Ends ({ supply := ⟨[⟨.number, "1", 0⟩, ⟨.operator, "+", 2⟩,
          ⟨.parenthesis, ")", 4⟩, .finish 5, ⟨.unknown, "", 6⟩], 9⟩ } : Buffered TokenList)
        [⟨.number, "1", 0⟩, ⟨.operator, "+", 2⟩, ⟨.parenthesis, ")", 4⟩] r'
      ∧ r'.result = .error (.unexpectedToken ⟨.parenthesis, ")", 4⟩ .factor)
  := by
  obtain ⟨-, hreported, -, hlist⟩ := parse_pulls_up_to_reported (TokenList.ofTokens
    [⟨.number, "1", 0⟩, ⟨.operator, "+", 2⟩, ⟨.parenthesis, ")", 4⟩, ⟨.number, "2", 6⟩])
  have hends : Goal.whole.Ends (Recorded.start (TokenList.ofTokens [⟨.number, "1", 0⟩,
      ⟨.operator, "+", 2⟩, ⟨.parenthesis, ")", 4⟩, ⟨.number, "2", 6⟩])) _ _ := ⟨3, rfl, rfl⟩
  refine ⟨_, hends, rfl, rfl, hlist _ _ _ hends, ?_⟩
  obtain ⟨front, last, heq, -, -, -, -, hreplaced⟩ := hreported _ _ hends
  have hrecord : ([.ok ⟨.number, "1", 0⟩, .ok ⟨.operator, "+", 2⟩, .ok ⟨.parenthesis, ")", 4⟩] :
      List (Except ParseError Token)) = front.map .ok ++ [last] := heq
  have hlength : front.length + 1 = 3 := by
    simpa using (congrArg List.length hrecord).symm
  rw [hlength] at hreplaced
  obtain ⟨r', hends', hr'⟩ := hreplaced TokenList ⟨[⟨.number, "1", 0⟩, ⟨.operator, "+", 2⟩,
    ⟨.parenthesis, ")", 4⟩, .finish 5, ⟨.unknown, "", 6⟩], 9⟩ rfl
  exact ⟨r', hends', hr'⟩

end Abacus
