import Abacus.Input.ByteSource
import Abacus.Input.CharReader

/-!
# Sources of characters

A `CharSource` gives characters one at a time, takes back the one that it has given last, and knows
where that one was. What can be seen of it is a reader of characters, its `view`: each request is
answered as the reader answers it. Readers of characters are sources, each with itself as its view.
-/

namespace Abacus

/-- The values of `ρ` give characters one at a time. -/
class CharSource (ρ : Type) where
  /-- The next character, or `none` at an end. -/
  read : ρ → Outcome ρ (Option SizedChar)
  /-- Puts back the character read last. -/
  putBack : SizedChar → ρ → ρ
  /-- The position of the character read last, and what the request for it leaves. -/
  locate : ρ → Nat × ρ
  /-- The reader that answers as the source does. -/
  view : ρ → CharReader
  read_view : ∀ r, (view r).read = mapState view (read r)
  putBack_view : ∀ c r, (view r).putBack c = view (putBack c r)
  locate_view : ∀ r, ((view r).position - 1, view r) = ((locate r).1, view (locate r).2)

instance : CharSource CharReader where
  read := CharReader.read
  putBack := CharReader.putBack
  locate r := (r.position - 1, r)
  view := id
  read_view r := by
    rw [id]
    cases r.read <;> rfl
  putBack_view _ _ := rfl
  locate_view _ := rfl

namespace CharSource

variable {ρ : Type} [CharSource ρ]

/-- The position of the next character. -/
def position (r : ρ) : Nat :=
  (view r).position

/-- The number of bytes of the characters still to be read. -/
def bytesLeft (r : ρ) : Nat :=
  (view r).bytesLeft

variable {r r' : ρ} {c : SizedChar}

/-- A character read lowers the bytes left by its width, and none is held behind it. -/
theorem bytesLeft_of_read_some (h : read r = .ok (some c) r') :
  bytesLeft r' + c.width = bytesLeft r ∧ (view r').held = none
  := by
  have hread := read_view r
  rw [h] at hread
  apply CharReader.bytesLeft_of_read_some hread

theorem bytesLeft_read_lt (h : read r = .ok (some c) r') :
  bytesLeft r' < bytesLeft r
  := by
  have hread := read_view r
  rw [h] at hread
  apply CharReader.bytesLeft_read_lt hread

theorem bytesLeft_read_le {o : Outcome ρ (Option SizedChar)} (ho : read r = o) :
  bytesLeft o.rest ≤ bytesLeft r
  := by
  have hread := read_view r
  rw [ho] at hread
  cases o <;> apply CharReader.bytesLeft_read_le hread

/-- Putting back the character just read restores the bytes left. -/
theorem bytesLeft_putBack (h : read r = .ok (some c) r') :
  bytesLeft (putBack c r') = bytesLeft r
  := by
  obtain ⟨hwidth, hheld⟩ := bytesLeft_of_read_some h
  rw [← hwidth, bytesLeft, ← putBack_view]
  apply CharReader.bytesLeft_putBack c hheld

theorem bytesLeft_locate (r : ρ) :
  bytesLeft (locate r).2 = bytesLeft r
  := congrArg CharReader.bytesLeft (Prod.mk.inj (locate_view r)).2.symm

end CharSource

end Abacus
