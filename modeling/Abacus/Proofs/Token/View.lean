import Abacus.Token.Reading

/-!
# Reading tokens from sources that are alike

A map of sources shifts them by `n`, `ShiftsBy n`, if it takes every source to one that gives the
same characters `n` characters further on. The tokens read are then the same, moved on by `n`,
`ShiftsBy.readToken_map`. A source and its view give the same characters at the same places, so the
tokens of a source are read as those of its view, `CharSource.readToken_view` and
`CharSource.readTokens_view`.
-/

namespace Abacus.CharSource

variable {ρ τ : Type} [CharSource ρ] [CharSource τ]

/-! ### Sources that are alike -/

/-- The map takes every source to one that gives the same characters, `n` characters further on. -/
structure ShiftsBy (n : Nat) (f : ρ → τ) : Prop where
  read_map : ∀ r, read (f r) = mapState f (read r)
  putBack_map : ∀ {r r' c}, read r = .ok (some c) r' → putBack c (f r') = f (putBack c r')
  locate_map : ∀ {r r' c}, read r = .ok (some c) r' →
    locate (f r') = (n + (locate r').1, f (locate r').2)
  position_map : ∀ r, position (f r) = n + position r

/-- What is left behind the blanks is left by a request for a character. -/
theorem exists_read_of_skipBlanks {r r' : ρ} {c : SizedChar}
    (h : skipBlanks r = .ok (some c) r') :
  ∃ r₁, read r₁ = .ok (some c) r'
  := by
  fun_induction skipBlanks r with
  | case1 | case2 => cases h
  | case3 _ _ _ _ _ ih => apply ih h
  | case4 r _ _ hread =>
    cases h
    exact ⟨r, hread⟩

namespace ShiftsBy

variable {n : Nat} {f : ρ → τ}

theorem skipBlanks_map (hf : ShiftsBy n f) (r : ρ) :
  skipBlanks (f r) = mapState f (skipBlanks r)
  := by
  fun_induction skipBlanks r with
  | case1 r fault r' h | case2 r r' h =>
    rw [skipBlanks_eq, hf.read_map, h]
    rfl
  | case3 r c r' h hc ih =>
    rw [skipBlanks_eq, hf.read_map, h, ← ih]
    simp only [mapState, hc, if_true]
  | case4 r c r' h hc =>
    rw [skipBlanks_eq, hf.read_map, h]
    simp only [mapState, hc, Bool.false_eq_true, if_false]

theorem takeRun_map (hf : ShiftsBy n f) (p : Char → Bool) (r : ρ) :
  takeRun p (f r) = mapState f (takeRun p r)
  := by
  fun_induction takeRun p r with
  | case1 r fault r' h | case2 r r' h =>
    rw [takeRun_eq, hf.read_map, h]
    rfl
  | case3 r c r' h hc fault r'' hrest ih | case4 r c r' h hc chars r'' hrest ih =>
    rw [hrest] at ih
    rw [takeRun_eq, hf.read_map, h]
    simp only [mapState, hc, if_true, ih]
  | case5 r c r' h hc =>
    rw [takeRun_eq, hf.read_map, h]
    simp only [mapState, hc, Bool.false_eq_true, if_false, hf.putBack_map h]

theorem readToken_map (hf : ShiftsBy n f) (r : ρ) :
  readToken (f r) =
    match readToken r with
    | .error fault r => .error fault (f r)
    | .ok t r => .ok (t.shift n) (f r)
  := by
  rw [readToken, readToken, hf.skipBlanks_map]
  rcases h : skipBlanks r with ⟨_ | first, r'⟩ | ⟨fault, r'⟩
  · simp only [mapState, hf.position_map]
    rfl
  · obtain ⟨r₁, hread⟩ := exists_read_of_skipBlanks h
    simp only [mapState, hf.locate_map hread]
    cases (Token.kindOfFirst first.char).continues? with
    | none => rfl
    | some p =>
      simp only [hf.takeRun_map]
      cases takeRun p (locate r').2 <;> rfl
  · rfl

end ShiftsBy

/-! ### Views -/

/-- A source and its view are at the same place. -/
theorem shiftsBy_view :
  ShiftsBy 0 (view : ρ → CharReader)
  where
  read_map := read_view
  putBack_map _ := putBack_view _ _
  locate_map _ := by
    rw [Nat.zero_add]
    apply locate_view
  position_map r := by
    rw [Nat.zero_add]
    rfl

theorem readToken_view (r : ρ) :
  readToken (view r) = mapState view (readToken r)
  := by
  rw [shiftsBy_view.readToken_map]
  cases readToken r with
  | error fault r' => rfl
  | ok t r' => simp only [mapState, Token.shift, Nat.zero_add]

theorem readTokens_view (r : ρ) :
  readTokens (view r) = mapState view (readTokens r)
  := by
  fun_induction readTokens r with
  | case1 r f r' h =>
    rw [readTokens_eq, readToken_view, h]
    rfl
  | case2 r t r' h ht =>
    rw [readTokens_eq, readToken_view, h]
    simp only [mapState, ht, if_true]
  | case3 r t r' h ht f r'' hrest ih | case4 r t r' h ht tokens r'' hrest ih =>
    rw [hrest] at ih
    rw [readTokens_eq, readToken_view, h]
    simp only [mapState, ht, if_false, ih]

end Abacus.CharSource
