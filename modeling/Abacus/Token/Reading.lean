import Abacus.Token.Lexical
import Abacus.Input.CharSource

/-!
# Reading tokens

`CharSource.readToken` reads the next token of a source of characters. Blanks before the token are
skipped, its first character decides the kind, and a number or a constant goes on for as long as its
kind allows. The character that ends such a run is put back. At the end of the source every call
gives a marker of the end. `CharSource.readTokens` collects the tokens up to the first such marker.
Of readers of characters these are `CharReader.readToken` and `CharReader.readTokens`.
-/

namespace Abacus

namespace CharSource

variable {ρ : Type} [CharSource ρ]

/-- The first character that is no blank, or `none` at an end. -/
def skipBlanks (r : ρ) : Outcome ρ (Option SizedChar) :=
  match _h : read r with
  | .error f r => .error f r
  | .ok none r => .ok none r
  | .ok (some c) r' => if isBlank c.char then skipBlanks r' else .ok (some c) r'
termination_by bytesLeft r
decreasing_by exact bytesLeft_read_lt _h

/-- The characters up to the first that fails `p`, which is put back, or up to an end. -/
def takeRun (p : Char → Bool) (r : ρ) : Outcome ρ (List Char) :=
  match _h : read r with
  | .error f r => .error f r
  | .ok none r => .ok [] r
  | .ok (some c) r' =>
    if p c.char then
      match takeRun p r' with
      | .error f r => .error f r
      | .ok chars r => .ok (c.char :: chars) r
    else .ok [] (putBack c r')
termination_by bytesLeft r
decreasing_by exact bytesLeft_read_lt _h

theorem skipBlanks_eq (r : ρ) :
  skipBlanks r =
    match read r with
    | .error f r => .error f r
    | .ok none r => .ok none r
    | .ok (some c) r' => if isBlank c.char then skipBlanks r' else .ok (some c) r'
  := by
  rw [skipBlanks]
  split <;> next h => rw [h]

theorem takeRun_eq (p : Char → Bool) (r : ρ) :
  takeRun p r =
    match read r with
    | .error f r => .error f r
    | .ok none r => .ok [] r
    | .ok (some c) r' =>
      if p c.char then
        match takeRun p r' with
        | .error f r => .error f r
        | .ok chars r => .ok (c.char :: chars) r
      else .ok [] (putBack c r')
  := by
  rw [takeRun]
  split <;> next h => exact h ▸ rfl

/-- The next token, or a marker of the end. A fault loses the characters of the token read so
far. -/
def readToken (r : ρ) : Outcome ρ Token :=
  match skipBlanks r with
  | .error f r => .error f r
  | .ok none r => .ok (.finish (position r)) r
  | .ok (some first) r =>
    let kind := Token.kindOfFirst first.char
    let (start, r) := locate r
    match kind.continues? with
    | none => .ok (.ofChars kind [first.char] start) r
    | some p =>
      match takeRun p r with
      | .error f r => .error f r
      | .ok chars r => .ok (.ofChars kind (first.char :: chars) start) r

/-! ### The bytes that a token takes -/

variable {r r' : ρ}

theorem bytesLeft_skipBlanks_le {o : Outcome ρ (Option SizedChar)} (ho : skipBlanks r = o) :
  bytesLeft o.rest ≤ bytesLeft r
  := by
  subst ho
  fun_induction skipBlanks r with
  | case1 r f r' hread | case2 r r' hread | case4 r c r' hread hc => apply bytesLeft_read_le hread
  | case3 r c r' hread hc ih => apply Nat.le_trans ih (bytesLeft_read_le hread)

theorem bytesLeft_skipBlanks_lt {c : SizedChar} (h : skipBlanks r = .ok (some c) r') :
  bytesLeft r' < bytesLeft r
  := by
  fun_induction skipBlanks r with
  | case1 | case2 => cases h
  | case3 r d r₁ hread hd ih => apply Nat.lt_trans (ih h) (bytesLeft_read_lt hread)
  | case4 r d r₁ hread hd =>
    cases h
    apply bytesLeft_read_lt hread

/-- The character that ends a run is put back, so it takes no bytes. -/
theorem bytesLeft_takeRun_le {p : Char → Bool} {o : Outcome ρ (List Char)} (ho : takeRun p r = o) :
  bytesLeft o.rest ≤ bytesLeft r
  := by
  subst ho
  fun_induction takeRun p r with
  | case1 r f r' hread | case2 r r' hread => apply bytesLeft_read_le hread
  | case3 r c r' hread hc f r₁ hrest ih | case4 r c r' hread hc chars r₁ hrest ih =>
    rw [hrest] at ih
    apply Nat.le_trans ih (bytesLeft_read_le hread)
  | case5 r c r' hread hc => apply Nat.le_of_eq (bytesLeft_putBack hread)

/-- Behind its first character a token takes more bytes only. -/
theorem bytesLeft_readToken_of_first {first : SizedChar} {o : Outcome ρ Token}
    (hblanks : skipBlanks r = .ok (some first) r') (ho : readToken r = o) :
  bytesLeft o.rest ≤ bytesLeft r'
  := by
  subst ho
  rw [readToken, hblanks, ← bytesLeft_locate r']
  dsimp only
  split
  · apply Nat.le_refl
  · split <;> next hrun => apply bytesLeft_takeRun_le hrun

/-- The reading of a token leaves no more bytes than it finds, whatever its result is. -/
theorem bytesLeft_readToken_le {o : Outcome ρ Token} (ho : readToken r = o) :
  bytesLeft o.rest ≤ bytesLeft r
  := by
  rcases hblanks : skipBlanks r with ⟨_ | first, r'⟩ | ⟨f, r'⟩
  · rw [readToken, hblanks] at ho
    subst ho
    apply bytesLeft_skipBlanks_le hblanks
  · apply Nat.le_trans (bytesLeft_readToken_of_first hblanks ho) (bytesLeft_skipBlanks_le hblanks)
  · rw [readToken, hblanks] at ho
    subst ho
    apply bytesLeft_skipBlanks_le hblanks

/-- A token other than a marker of the end lowers the bytes left. -/
theorem bytesLeft_readToken_lt {t : Token} (h : readToken r = .ok t r') (ht : t.kind ≠ .finish) :
  bytesLeft r' < bytesLeft r
  := by
  rcases hblanks : skipBlanks r with ⟨_ | first, r₁⟩ | ⟨f, r₁⟩
  · rw [readToken, hblanks] at h
    cases h
    exact absurd rfl ht
  · apply Nat.lt_of_le_of_lt (bytesLeft_readToken_of_first hblanks h)
    apply bytesLeft_skipBlanks_lt hblanks
  · rw [readToken, hblanks] at h
    cases h

/-! ### All tokens -/

/-- The tokens up to the next marker of the end, without the marker. The first fault ends the
reading and loses them. -/
def readTokens (r : ρ) : Outcome ρ (List Token) :=
  match _h : readToken r with
  | .error f r => .error f r
  | .ok t r' =>
    if _ht : t.kind = .finish then .ok [] r'
    else
      match readTokens r' with
      | .error f r => .error f r
      | .ok tokens r => .ok (t :: tokens) r
termination_by bytesLeft r
decreasing_by exact bytesLeft_readToken_lt _h _ht

theorem bytesLeft_readTokens_le {o : Outcome ρ (List Token)} (ho : readTokens r = o) :
  bytesLeft o.rest ≤ bytesLeft r
  := by
  subst ho
  fun_induction readTokens r with
  | case1 r f r' htoken | case2 r t r' htoken ht => apply bytesLeft_readToken_le htoken
  | case3 r t r' htoken ht f r₁ hrest ih | case4 r t r' htoken ht tokens r₁ hrest ih =>
    rw [hrest] at ih
    apply Nat.le_trans ih (bytesLeft_readToken_le htoken)

theorem readTokens_eq (r : ρ) :
  readTokens r =
    match readToken r with
    | .error f r => .error f r
    | .ok t r' =>
      if t.kind = .finish then .ok [] r'
      else
        match readTokens r' with
        | .error f r => .error f r
        | .ok tokens r => .ok (t :: tokens) r
  := by
  rw [readTokens]
  split <;> next h => exact h ▸ rfl

end CharSource

/-! ### Readers of characters -/

namespace CharReader

open CharSource (skipBlanks takeRun)

/-- The next token of a reader, or a marker of the end. -/
def readToken (r : CharReader) : Outcome CharReader Token :=
  CharSource.readToken r

/-- The tokens of a reader up to the next marker of the end. -/
def readTokens (r : CharReader) : Outcome CharReader (List Token) :=
  CharSource.readTokens r

theorem skipBlanks_eq (r : CharReader) :
  skipBlanks r =
    match r.read with
    | .error f r => .error f r
    | .ok none r => .ok none r
    | .ok (some c) r' => if isBlank c.char then skipBlanks r' else .ok (some c) r'
  := by
  have hread : CharSource.read r = r.read := rfl
  rw [CharSource.skipBlanks_eq, hread]
  rcases r.read with ⟨_ | c, r'⟩ | ⟨f, r'⟩ <;> rfl

theorem takeRun_eq (p : Char → Bool) (r : CharReader) :
  takeRun p r =
    match r.read with
    | .error f r => .error f r
    | .ok none r => .ok [] r
    | .ok (some c) r' =>
      if p c.char then
        match takeRun p r' with
        | .error f r => .error f r
        | .ok chars r => .ok (c.char :: chars) r
      else .ok [] (r'.putBack c)
  := by
  have hread : CharSource.read r = r.read := rfl
  rw [CharSource.takeRun_eq, hread]
  rcases r.read with ⟨_ | c, r'⟩ | ⟨f, r'⟩
  · rfl
  · dsimp only
    split
    · cases takeRun p r' <;> rfl
    · rfl
  · rfl

theorem readToken_eq (r : CharReader) :
  r.readToken =
    match skipBlanks r with
    | .error f r => .error f r
    | .ok none r => .ok (.finish r.position) r
    | .ok (some first) r =>
      let kind := Token.kindOfFirst first.char
      let start := r.position - 1
      match kind.continues? with
      | none => .ok (.ofChars kind [first.char] start) r
      | some p =>
        match takeRun p r with
        | .error f r => .error f r
        | .ok chars r => .ok (.ofChars kind (first.char :: chars) start) r
  := by
  rw [readToken, CharSource.readToken]
  rcases skipBlanks r with ⟨_ | first, r'⟩ | ⟨f, r'⟩
  · rfl
  · have hlocate : CharSource.locate r' = (r'.position - 1, r') := rfl
    dsimp only
    rw [hlocate]
    cases (Token.kindOfFirst first.char).continues? with
    | none => rfl
    | some p =>
      dsimp only
      cases takeRun p r' <;> rfl
  · rfl

theorem readTokens_eq (r : CharReader) :
  r.readTokens =
    match r.readToken with
    | .error f r => .error f r
    | .ok t r' =>
      if t.kind = .finish then .ok [] r'
      else
        match r'.readTokens with
        | .error f r => .error f r
        | .ok tokens r => .ok (t :: tokens) r
  := by
  have htoken : CharSource.readToken r = r.readToken := rfl
  rw [readTokens, CharSource.readTokens_eq, htoken]
  cases r.readToken with
  | error f r' => rfl
  | ok t r' =>
    dsimp only
    split
    · rfl
    · rw [readTokens]
      cases CharSource.readTokens r' <;> rfl

/-- The tokens up to the next marker of the end where at most `n` tokens are asked for, that marker
among them, or `none` if these are too few. -/
def readTokensWithin : Nat → CharReader → Option (Outcome CharReader (List Token))
  | 0, _ => none
  | n + 1, r =>
    match r.readToken with
    | .error f r => some (.error f r)
    | .ok t r =>
      if t.kind = .finish then some (.ok [] r)
      else
        match readTokensWithin n r with
        | none => none
        | some (.error f r) => some (.error f r)
        | some (.ok tokens r) => some (.ok (t :: tokens) r)

/-- The results of reading `n` tokens, each with the position behind it. Each reading goes on
from where the one before it ended, be it with a token or with a fault. -/
def tokenResults : Nat → CharReader → List (Except Fault Token × Nat)
  | 0, _ => []
  | n + 1, r =>
    match r.readToken with
    | .error f r => (.error f, r.position) :: tokenResults n r
    | .ok t r => (.ok t, r.position) :: tokenResults n r

end CharReader

end Abacus
