import Mathlib.Tactic.Use
import Abacus.Parse.Consumption

/-!
# The course of a reading

A reading that ends does so by a `Course`: it takes tokens for as long as the draft does, and then
its goal is met, the supply fails, or the next token ends it. The courses are the readings that end
within some bound, `ends_iff_course`, so what holds of every reading that ends is proved by induction
on its course. Along a course tokens are taken as they are by hand, `Buffered.Yields`.
-/

namespace Abacus

variable {σ : Type} [TokenSupply σ]

/-! ### Taking tokens -/

namespace Buffered

/-- What is given and left by a token taken is that of the next token. -/
theorem takes_cons_of_ok {l l' : Buffered σ} {t : Token} (h : l.take = .ok t l') (n : Nat) :
  l.takes (n + 1) = (.ok t :: (l'.takes n).1, (l'.takes n).2)
  := by
  rw [takes, h]
  rfl

theorem takes_cons_of_error {l l' : Buffered σ} {error : ParseError} (h : l.take = .error error l')
    (n : Nat) :
  l.takes (n + 1) = (.error error :: (l'.takes n).1, (l'.takes n).2)
  := by
  rw [takes, h]
  rfl

/-- What is taken behind the first `m`. -/
theorem takes_add (m n : Nat) (l : Buffered σ) :
  l.takes (m + n) = ((l.takes m).1 ++ ((l.takes m).2.takes n).1, ((l.takes m).2.takes n).2)
  := by
  induction m generalizing l with
  | zero => simp [takes]
  | succ m ih =>
    rw [Nat.succ_add]
    cases htake : l.take with
    | ok t l' =>
      rw [takes_cons_of_ok htake, takes_cons_of_ok htake, ih]
      rfl
    | error error l' =>
      rw [takes_cons_of_error htake, takes_cons_of_error htake, ih]
      rfl

theorem take_of_look_ok {l l' : Buffered σ} {t : Token} (h : l.look = .ok t l') :
  l.take = .ok t l'.dropFront
  := by
  rw [take, h]

theorem take_of_look_error {l l' : Buffered σ} {error : ParseError} (h : l.look = .error error l') :
  l.take = .error error l'
  := by
  rw [take, h]

/-- A token looked at is in front. -/
theorem front_of_look_ok {l l' : Buffered σ} {t : Token} (h : l.look = .ok t l') :
  l'.front = some t
  := by
  rw [look] at h
  split at h
  · next hfront =>
    cases h
    apply hfront
  · split at h
    · cases h
    · cases h
      rfl

theorem look_of_front {l : Buffered σ} {t : Token} (h : l.front = some t) :
  l.look = .ok t l
  := by
  rw [look, h]

/-- A look takes nothing. -/
theorem fst_takes_of_look {l l' : Buffered σ} {t : Token} (h : l.look = .ok t l') (n : Nat) :
  (l.takes n).1 = (l'.takes n).1
  := by
  have hlook : l'.look = .ok t l' := look_of_front (front_of_look_ok h)
  cases n with
  | zero => rfl
  | succ n => rw [takes_cons_of_ok (take_of_look_ok h), takes_cons_of_ok (take_of_look_ok hlook)]

/-- The tokens are those in front, and `l'` is what taking them leaves. -/
def Yields (l : Buffered σ) (tokens : List Token) (l' : Buffered σ) : Prop :=
  l.takes tokens.length = (tokens.map .ok, l')

theorem Yields.nil (l : Buffered σ) :
  l.Yields [] l
  := rfl

theorem Yields.cons {l l₁ l' : Buffered σ} {t : Token} {tokens : List Token}
    (h : l.look = .ok t l₁) (hrest : l₁.dropFront.Yields tokens l') :
  l.Yields (t :: tokens) l'
  := by
  rw [Yields, List.length_cons, takes_cons_of_ok (take_of_look_ok h), hrest]
  rfl

/-- A token taken leaves none that has been looked at. -/
theorem front_of_take_ok {l l' : Buffered σ} {t : Token} (h : l.take = .ok t l') :
  l'.front = none
  := by
  rw [take] at h
  split at h
  · cases h
  · cases h
    rfl

/-- The first of the tokens is taken first. -/
theorem Yields.exists_take {l l' : Buffered σ} {t : Token} {tokens : List Token}
    (h : l.Yields (t :: tokens) l') :
  ∃ l₁, l.take = .ok t l₁ ∧ l₁.Yields tokens l'
  := by
  rw [Yields, List.length_cons] at h
  cases htake : l.take with
  | ok u l₁ =>
    rw [takes_cons_of_ok htake, List.map_cons] at h
    obtain ⟨hfirst, hrest⟩ := List.cons.inj (Prod.mk.inj h).1
    cases hfirst
    exact ⟨l₁, rfl, Prod.ext hrest (Prod.mk.inj h).2⟩
  | error error l₁ =>
    rw [takes_cons_of_error htake, List.map_cons] at h
    cases (List.cons.inj (Prod.mk.inj h).1).1

/-- Behind tokens taken there is none that has been looked at. -/
theorem Yields.front_eq_none {l l' : Buffered σ} {tokens : List Token} (hne : tokens ≠ [])
    (h : l.Yields tokens l') :
  l'.front = none
  := by
  induction tokens generalizing l with
  | nil => exact absurd rfl hne
  | cons t tokens ih =>
    obtain ⟨l₁, htake, hrest⟩ := h.exists_take
    cases tokens with
    | nil =>
      obtain rfl : l₁ = l' := (Prod.mk.inj hrest).2
      apply front_of_take_ok htake
    | cons u tokens => apply ih (List.cons_ne_nil u tokens) hrest

/-- Behind the tokens there is what taking them leaves. -/
theorem Yields.fst_takes {l l' : Buffered σ} {tokens : List Token} (h : l.Yields tokens l')
    (n : Nat) :
  (l.takes (tokens.length + n)).1 = tokens.map .ok ++ (l'.takes n).1
  := by
  rw [takes_add, h]

end Buffered

/-! ### The course of a reading -/

/-- The course of a reading that ends: the tokens that it takes, and its report. -/
inductive Course (goal : Goal) : Draft → Buffered σ → List Token → Report σ → Prop
  /-- The goal is met without another token. -/
  | met {d : Draft} {l : Buffered σ} {e : Expr} (hgoal : d.result? goal = some e) :
      Course goal d l [] ⟨.ok e, l, []⟩
  /-- The supply fails. -/
  | failed {d : Draft} {l l' : Buffered σ} {error : ParseError} (hgoal : d.result? goal = none)
      (hlook : l.look = .error error l') :
      Course goal d l [] ⟨.error error, l', []⟩
  /-- The next token is behind the expression. -/
  | finished {d : Draft} {l l' : Buffered σ} {t : Token} {e : Expr}
      (hgoal : d.result? goal = none) (hlook : l.look = .ok t l')
      (hmove : (d.step goal t).move = .finish e) :
      Course goal d l [] ⟨.ok e, l', l.lookEvents t ++ (d.step goal t).built.map .built⟩
  /-- The next token is refused. -/
  | rejected {d : Draft} {l l' : Buffered σ} {t : Token} {error : ParseError} {taken : Bool}
      (hgoal : d.result? goal = none) (hlook : l.look = .ok t l')
      (hmove : (d.step goal t).move = .reject error taken) :
      Course goal d l (if taken then [t] else [])
        ⟨.error error, if taken then l'.dropFront else l',
          l.lookEvents t ++ (d.step goal t).built.map .built⟩
  /-- The next token is taken. -/
  | taken {d next : Draft} {l l' : Buffered σ} {t : Token} {tokens : List Token} {r : Report σ}
      (hgoal : d.result? goal = none) (hlook : l.look = .ok t l')
      (hmove : (d.step goal t).move = .take next) (hrest : Course goal next l'.dropFront tokens r) :
      Course goal d l (t :: tokens)
        (r.prepend (l.lookEvents t ++ (d.step goal t).built.map .built))

/-- A bound that is not reached leaves a course. -/
theorem course_of_read {goal : Goal} {bound : Nat} {d : Draft} {l : Buffered σ} {r : Report σ}
    (h : Draft.read goal bound d l = some r) :
  Course goal d l (Draft.consumed goal bound d l) r
  := by
  induction bound generalizing d l r with
  | zero => cases h
  | succ bound ih =>
    rw [Draft.read] at h
    rw [Draft.consumed]
    cases hgoal : d.result? goal with
    | some e =>
      simp only [hgoal] at h ⊢
      obtain rfl := Option.some.inj h
      apply Course.met hgoal
    | none =>
      cases hlook : l.look with
      | error error l' =>
        simp only [hgoal, hlook] at h ⊢
        obtain rfl := Option.some.inj h
        apply Course.failed hgoal hlook
      | ok t l' =>
        cases hmove : (d.step goal t).move with
        | take next =>
          simp only [hgoal, hlook, hmove] at h ⊢
          obtain ⟨r', hread, rfl⟩ := Option.map_eq_some_iff.mp h
          apply Course.taken hgoal hlook hmove (ih hread)
        | finish e =>
          simp only [hgoal, hlook, hmove] at h ⊢
          obtain rfl := Option.some.inj h
          apply Course.finished hgoal hlook hmove
        | reject error taken =>
          simp only [hgoal, hlook, hmove] at h ⊢
          obtain rfl := Option.some.inj h
          apply Course.rejected hgoal hlook hmove

/-- A course is one of a reading with a bound. -/
theorem exists_read_of_course {goal : Goal} {d : Draft} {l : Buffered σ} {tokens : List Token}
    {r : Report σ} (h : Course goal d l tokens r) :
  ∃ bound, Draft.read goal bound d l = some r ∧ Draft.consumed goal bound d l = tokens
  := by
  induction h with
  | met hgoal =>
    use 1
    simp only [Draft.read, Draft.consumed, hgoal, and_self]
  | failed hgoal hlook =>
    use 1
    simp only [Draft.read, Draft.consumed, hgoal, hlook, and_self]
  | finished hgoal hlook hmove | rejected hgoal hlook hmove =>
    use 1
    simp only [Draft.read, Draft.consumed, hgoal, hlook, hmove, and_self]
  | taken hgoal hlook hmove _ ih =>
    obtain ⟨bound, hread, hconsumed⟩ := ih
    use bound + 1
    simp only [Draft.read, Draft.consumed, hgoal, hlook, hmove, hread, hconsumed, Option.map_some,
      and_self]

/-- The readings that end are those with a course. -/
theorem ends_iff_course {goal : Goal} {l : Buffered σ} {tokens : List Token} {r : Report σ} :
  goal.Ends l tokens r ↔ Course goal {} l tokens r
  := by
  constructor
  · rintro ⟨bound, hread, rfl⟩
    apply course_of_read hread
  · apply exists_read_of_course

namespace Course

variable {goal : Goal} {d : Draft} {l : Buffered σ} {tokens tokens' : List Token} {r r' : Report σ}

/-- The first step of a course. -/
theorem first (h : Course goal d l tokens r) :
  match d.result? goal with
  | some e => tokens = [] ∧ r = ⟨.ok e, l, []⟩
  | none =>
    match l.look with
    | .error error l' => tokens = [] ∧ r = ⟨.error error, l', []⟩
    | .ok t l' =>
      let events := l.lookEvents t ++ (d.step goal t).built.map .built
      match (d.step goal t).move with
      | .take next => ∃ more r₁, Course goal next l'.dropFront more r₁
          ∧ tokens = t :: more ∧ r = r₁.prepend events
      | .finish e => tokens = [] ∧ r = ⟨.ok e, l', events⟩
      | .reject error isTaken => tokens = (if isTaken then [t] else [])
          ∧ r = ⟨.error error, if isTaken then l'.dropFront else l', events⟩
  := by
  cases h with
  | met hgoal => simp only [hgoal, and_self]
  | failed hgoal hlook => simp only [hgoal, hlook, and_self]
  | finished hgoal hlook hmove | rejected hgoal hlook hmove =>
    simp only [hgoal, hlook, hmove, and_self]
  | taken hgoal hlook hmove hrest =>
    simp only [hgoal, hlook, hmove]
    exact ⟨_, _, hrest, rfl, rfl⟩

/-- There is one course from a draft and a supply. -/
theorem unique (h : Course goal d l tokens r) (h' : Course goal d l tokens' r') :
  tokens = tokens' ∧ r = r'
  := by
  induction h generalizing tokens' r' with
  | met hgoal =>
    have hfirst := h'.first
    simp only [hgoal] at hfirst
    exact ⟨hfirst.1.symm, hfirst.2.symm⟩
  | failed hgoal hlook =>
    have hfirst := h'.first
    simp only [hgoal, hlook] at hfirst
    exact ⟨hfirst.1.symm, hfirst.2.symm⟩
  | finished hgoal hlook hmove | rejected hgoal hlook hmove =>
    have hfirst := h'.first
    simp only [hgoal, hlook, hmove] at hfirst
    exact ⟨hfirst.1.symm, hfirst.2.symm⟩
  | taken hgoal hlook hmove _ ih =>
    have hfirst := h'.first
    simp only [hgoal, hlook, hmove] at hfirst
    obtain ⟨more, r₁, hrest, rfl, rfl⟩ := hfirst
    obtain ⟨rfl, rfl⟩ := ih hrest
    exact ⟨rfl, rfl⟩

/-- Goals that are met at the same drafts and for which every token does the same have the same
courses. -/
theorem congr {goal' : Goal} (hgoals : ∀ d : Draft, d.result? goal' = d.result? goal)
    (hsteps : ∀ (d : Draft) t, d.step goal' t = d.step goal t) (h : Course goal d l tokens r) :
  Course goal' d l tokens r
  := by
  induction h with
  | met hgoal => exact .met ((hgoals _).trans hgoal)
  | failed hgoal hlook => exact .failed ((hgoals _).trans hgoal) hlook
  | @finished d l l' t e hgoal hlook hmove =>
    rw [← hsteps] at hmove ⊢
    exact .finished ((hgoals _).trans hgoal) hlook hmove
  | rejected hgoal hlook hmove =>
    rw [← hsteps] at hmove ⊢
    exact .rejected ((hgoals _).trans hgoal) hlook hmove
  | taken hgoal hlook hmove _ ih =>
    rw [← hsteps] at hmove ⊢
    exact .taken ((hgoals _).trans hgoal) hlook hmove ih

end Course

/-! ### Finite supplies -/

/-- The tokens that a reading of a finite supply takes. -/
def Goal.taken {σ : Type} [FiniteSupply σ] (goal : Goal) (l : Buffered σ) : List Token :=
  Draft.consumed goal (l.size + 1) {} l

/-- Every reading of a finite supply ends. -/
theorem Goal.ends_read {σ : Type} [FiniteSupply σ] (goal : Goal) (l : Buffered σ) :
  goal.Ends l (goal.taken l) (goal.read l)
  := by
  use l.size + 1
  constructor
  · apply (Option.some_get _).symm
  · rfl

end Abacus
