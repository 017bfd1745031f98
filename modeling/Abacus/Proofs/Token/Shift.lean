import Abacus.Proofs.Token.Runs
import Abacus.Proofs.Token.View

/-!
# Readers moved on by some characters

The position of a reader has no influence on what it reads. A reader moved on by `n` characters,
`CharReader.shift n`, gives the same characters, faults and ends at positions moved on by `n`, and
so the same tokens moved on by `n`, `CharReader.tokenResults_shift`.
-/

namespace Abacus.CharReader

/-- The reader moved on by `n` characters. -/
def shift (n : Nat) (r : CharReader) : CharReader :=
  { r with position := n + r.position }

/-- The result of a reading moved on by `n` characters. -/
def shiftResult (n : Nat) : Except Fault Token × Nat → Except Fault Token × Nat :=
  Prod.map (Except.map (Token.shift n)) (n + ·)

variable (n : Nat)

theorem read_shift (r : CharReader) :
  (r.shift n).read = mapState (shift n) r.read
  := by
  rcases r with ⟨bytes, _ | c, position⟩
  · dsimp only [shift, read]
    cases bytes.nextChar with
    | error f bytes => rfl
    | ok c bytes => cases c <;> rfl
  · rfl

/-- A reader that has given a character is not at the start, so the character before is there to be
put back. -/
theorem shiftsBy_shift :
  CharSource.ShiftsBy n (shift n)
  where
  read_map := read_shift n
  putBack_map {r r' c} h := by
    have hposition : r'.position = r.position + 1 := position_of_read_some h
    change putBack c (shift n r') = shift n (putBack c r')
    rw [putBack, putBack, shift, shift, hposition]
    rfl
  locate_map {r r' c} h := by
    have hposition : r'.position = r.position + 1 := position_of_read_some h
    change ((shift n r').position - 1, shift n r') = (n + (r'.position - 1), shift n r')
    rw [shift, hposition]
    rfl
  position_map _ := rfl

/-- Readings of tokens do not depend on the position but for the positions of their results. -/
theorem tokenResults_shift (count : Nat) (r : CharReader) :
  tokenResults count (r.shift n) = (tokenResults count r).map (shiftResult n)
  := by
  induction count generalizing r with
  | zero => rfl
  | succ count ih =>
    rw [tokenResults, tokenResults, readToken, (shiftsBy_shift n).readToken_map, ← readToken]
    cases r.readToken with
    | error f r' =>
      dsimp only
      rw [ih, List.map_cons]
      rfl
    | ok t r' =>
      dsimp only
      rw [ih, List.map_cons]
      rfl

end Abacus.CharReader
