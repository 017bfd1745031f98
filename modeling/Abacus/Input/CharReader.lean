import Abacus.Input.SizedChar

/-!
# Readers of characters

A `CharReader` reads the characters of a byte stream one at a time and lets the one read last
be put back. Its `position` counts the characters read and not put back, so it is the offset
of the character that `read` gives next. `bytesLeft` counts the bytes of the characters still
to be read; every character read lowers it by its width.
-/

namespace Abacus

/-- A byte stream, the character put back, if any, and the count of the characters read. -/
structure CharReader where
  bytes : ByteStream
  held : Option SizedChar := none
  position : Nat := 0
  deriving DecidableEq, Repr

namespace CharReader

/-- The reader at the start of a list of signals. -/
def ofSignals (signals : List Signal) : CharReader :=
  { bytes := { signals } }

/-- The reader at the start of a text. -/
def ofText (text : String) : CharReader :=
  ofSignals ((bytesOfText text).map .byte)

/-- The next character, or `none` at an end: the one put back if there is one, else the next
one of the stream. -/
def read (r : CharReader) : Outcome CharReader (Option SizedChar) :=
  match r.held with
  | some c => .ok (some c) { r with held := none, position := r.position + 1 }
  | none =>
    match r.bytes.nextChar with
    | .error f bytes => .error f { r with bytes }
    | .ok none bytes => .ok none { r with bytes }
    | .ok (some c) bytes => .ok (some c) { r with bytes, position := r.position + 1 }

/-- Puts back the character read last. -/
def putBack (c : SizedChar) (r : CharReader) : CharReader :=
  { r with held := some c, position := r.position - 1 }

/-- The number of bytes of the characters still to be read. -/
def bytesLeft (r : CharReader) : Nat :=
  r.bytes.bytesLeft + (r.held.map SizedChar.width).getD 0

/-- A character read lowers the bytes left by its width, and none is held behind it. -/
theorem bytesLeft_of_read_some {r r' : CharReader} {c : SizedChar}
    (h : r.read = .ok (some c) r') :
  r'.bytesLeft + c.width = r.bytesLeft ∧ r'.held = none
  := by
  rcases r with ⟨bytes, _ | back, position⟩
  · simp only [read] at h
    split at h
    · simp at h
    · simp at h
    · next hd =>
      simp at h
      obtain ⟨rfl, rfl⟩ := h
      simpa [bytesLeft] using ByteStream.bytesLeft_of_nextChar_some hd
  · simp [read] at h
    obtain ⟨rfl, rfl⟩ := h
    simp [bytesLeft]

theorem bytesLeft_of_read_none {r r' : CharReader} (h : r.read = .ok none r') :
  r'.bytesLeft = r.bytesLeft
  := by
  rcases r with ⟨bytes, _ | back, position⟩
  · simp only [read] at h
    split at h
    · simp at h
    · next hd =>
      simp at h
      subst h
      simpa [bytesLeft] using ByteStream.bytesLeft_of_nextChar_none hd
    · simp at h
  · simp [read] at h

theorem bytesLeft_of_read_error {r r' : CharReader} {f : Fault} (h : r.read = .error f r') :
  r'.bytesLeft ≤ r.bytesLeft
  := by
  rcases r with ⟨bytes, _ | back, position⟩
  · simp only [read] at h
    split at h
    · next hd =>
      simp at h
      obtain ⟨rfl, rfl⟩ := h
      simpa [bytesLeft] using ByteStream.bytesLeft_of_nextChar_error hd
    · simp at h
    · simp at h
  · simp [read] at h

theorem bytesLeft_read_lt {r r' : CharReader} {c : SizedChar} (h : r.read = .ok (some c) r') :
  r'.bytesLeft < r.bytesLeft
  := by
  have := (bytesLeft_of_read_some h).1
  have := c.width_pos
  omega

/-- Whatever a request for a character gives, it leaves no more bytes than it finds. -/
theorem bytesLeft_read_le {r : CharReader} {o : Outcome CharReader (Option SizedChar)}
    (ho : r.read = o) :
  o.rest.bytesLeft ≤ r.bytesLeft
  := by
  rcases o with ⟨_ | c, r'⟩ | ⟨f, r'⟩
  · apply Nat.le_of_eq (bytesLeft_of_read_none ho)
  · apply Nat.le_of_lt (bytesLeft_read_lt ho)
  · apply bytesLeft_of_read_error ho

/-- Putting back a character just read restores the bytes left. -/
theorem bytesLeft_putBack {r : CharReader} (c : SizedChar) (h : r.held = none) :
  (r.putBack c).bytesLeft = r.bytesLeft + c.width
  := by
  simp [bytesLeft, putBack, h]

/-- The characters up to the next end. -/
def readChars (r : CharReader) : Outcome CharReader (List Char) :=
  match _h : r.read with
  | .error f r => .error f r
  | .ok none r => .ok [] r
  | .ok (some c) r' =>
    match readChars r' with
    | .error f r => .error f r
    | .ok chars r => .ok (c.char :: chars) r
termination_by r.bytesLeft
decreasing_by exact bytesLeft_read_lt _h

end CharReader

end Abacus
