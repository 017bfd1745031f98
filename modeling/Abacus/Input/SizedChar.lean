import Abacus.Input.ByteStream

/-!
# Characters decoded from bytes

A `SizedChar` is a character decoded from a byte stream, together with its width, the number
of bytes it was decoded from. `ByteStream.nextChar` decodes the next one. A first byte
announces how many continuation bytes follow it; if that many follow and the sequence is the
UTF-8 encoding of a character, that character is the next one. Otherwise the next one is the
replacement character, decoded from the first byte alone, and the bytes read after it are put
back. A fault that strikes between the bytes of a sequence loses the bytes of the sequence
read so far.
-/

namespace Abacus

/-- A decoded character and the number of bytes it was decoded from. -/
structure SizedChar where
  char : Char
  width : Nat
  width_pos : 0 < width := by decide
  deriving DecidableEq, Repr

/-- The character that stands for a byte of no well-formed sequence. -/
def replacement : Char := '\uFFFD'

/-- The number of continuation bytes that a first byte announces, `none` for a byte that
starts no sequence. -/
def announced (lead : UInt8) : Option Nat :=
  if lead < 0x80 then some 0
  else if lead < 0xC0 then none
  else if lead < 0xE0 then some 1
  else if lead < 0xF0 then some 2
  else if lead < 0xF8 then some 3
  else none

/-- The byte continues a sequence of several bytes. -/
def isContinuation (b : UInt8) : Bool :=
  0x80 ≤ b && b < 0xC0

/-- The character that begins the bytes, if they begin with the encoding of one. -/
def firstChar? (bytes : List UInt8) : Option Char :=
  bytes.toByteArray.utf8DecodeChar? 0

private theorem toByteArray_injective {l l' : List UInt8} (h : l.toByteArray = l'.toByteArray) :
  l = l'
  := by
  have h := congrArg ByteArray.data h
  rw [List.data_toByteArray, List.data_toByteArray] at h
  injection h

/-- The bytes begin with the encoding of `c` exactly if they are this encoding followed by some
bytes. -/
theorem firstChar?_eq_some_iff {bytes : List UInt8} {c : Char} :
  firstChar? bytes = some c ↔ ∃ rest, bytes = String.utf8EncodeChar c ++ rest
  := by
  constructor
  · intro h
    obtain ⟨l, hl⟩ := ByteArray.exists_of_utf8DecodeChar?_eq_some h
    refine ⟨l.data.toList, ?_⟩
    apply toByteArray_injective
    rw [List.toByteArray_append, hl]
    congr 1
    apply ByteArray.ext
    rw [List.data_toByteArray, Array.toArray_toList]
  · rintro ⟨rest, rfl⟩
    rw [firstChar?, List.toByteArray_append]
    exact ByteArray.utf8DecodeChar?_utf8EncodeChar_append

namespace ByteStream

/-- Up to `n` continuation bytes. The first byte that is none, or an end, stops the run; such
a byte is put back. -/
def continuation : Nat → ByteStream → Outcome ByteStream (List UInt8)
  | 0, s => .ok [] s
  | n + 1, s =>
    match s.next with
    | .error f s => .error f s
    | .ok none s => .ok [] s
    | .ok (some b) s =>
      if isContinuation b then
        match continuation n s with
        | .error f s => .error f s
        | .ok bytes s => .ok (b :: bytes) s
      else .ok [] (s.putBack [b])

/-- The next character, or `none` at an end. -/
def nextChar (s : ByteStream) : Outcome ByteStream (Option SizedChar) :=
  match s.next with
  | .error f s => .error f s
  | .ok none s => .ok none s
  | .ok (some lead) s =>
    match announced lead with
    | none => .ok (some ⟨replacement, 1, by decide⟩) s
    | some n =>
      match s.continuation n with
      | .error f s => .error f s
      | .ok tail s =>
        match firstChar? (lead :: tail) with
        | some c => .ok (some ⟨c, tail.length + 1, Nat.succ_pos _⟩) s
        | none => .ok (some ⟨replacement, 1, by decide⟩) (s.putBack tail)

/-! ### The bytes that decoding takes -/

theorem bytesLeft_of_continuation_ok {n : Nat} {s s' : ByteStream} {bytes : List UInt8}
    (h : s.continuation n = .ok bytes s') :
  s'.bytesLeft + bytes.length = s.bytesLeft
  := by
  induction n generalizing s bytes with
  | zero =>
    simp [continuation] at h
    obtain ⟨rfl, rfl⟩ := h
    rfl
  | succ n ih =>
    rw [continuation] at h
    split at h
    · simp at h
    · next hn =>
      simp at h
      obtain ⟨rfl, rfl⟩ := h
      simpa using bytesLeft_of_next_none hn
    · next b t hn =>
      have hb := bytesLeft_of_next_some hn
      split at h
      · split at h
        · simp at h
        · next hc =>
          simp at h
          obtain ⟨rfl, rfl⟩ := h
          simp [← hb, ← ih hc, Nat.add_assoc]
      · simp at h
        obtain ⟨rfl, rfl⟩ := h
        simp [← hb, Nat.add_comm]

theorem bytesLeft_of_continuation_error {n : Nat} {s s' : ByteStream} {f : Fault}
    (h : s.continuation n = .error f s') :
  s'.bytesLeft ≤ s.bytesLeft
  := by
  induction n generalizing s with
  | zero => simp [continuation] at h
  | succ n ih =>
    rw [continuation] at h
    split at h
    · next hn =>
      simp at h
      obtain ⟨rfl, rfl⟩ := h
      exact Nat.le_of_eq (bytesLeft_of_next_error hn)
    · simp at h
    · next b t hn =>
      have hb := bytesLeft_of_next_some hn
      split at h
      · split at h
        · next hc =>
          simp at h
          obtain ⟨rfl, rfl⟩ := h
          have := ih hc
          omega
        · simp at h
      · simp at h

/-- A character takes as many bytes as its width. -/
theorem bytesLeft_of_nextChar_some {s s' : ByteStream} {r : SizedChar}
    (h : s.nextChar = .ok (some r) s') :
  s'.bytesLeft + r.width = s.bytesLeft
  := by
  rw [nextChar] at h
  split at h
  · simp at h
  · simp at h
  · next lead t hn =>
    have hb := bytesLeft_of_next_some hn
    split at h
    · simp at h
      obtain ⟨rfl, rfl⟩ := h
      exact hb
    · split at h
      · simp at h
      · next tail u hc =>
        have ht := bytesLeft_of_continuation_ok hc
        split at h
        · simp at h
          obtain ⟨rfl, rfl⟩ := h
          simp
          omega
        · simp at h
          obtain ⟨rfl, rfl⟩ := h
          simp
          omega

/-- The report of an end takes no byte. -/
theorem bytesLeft_of_nextChar_none {s s' : ByteStream} (h : s.nextChar = .ok none s') :
  s'.bytesLeft = s.bytesLeft
  := by
  rw [nextChar] at h
  split at h
  · simp at h
  · next hn =>
    simp at h
    exact h ▸ bytesLeft_of_next_none hn
  · split at h
    · simp at h
    · split at h
      · simp at h
      · split at h <;> simp at h

/-- A fault gives no byte back. -/
theorem bytesLeft_of_nextChar_error {s s' : ByteStream} {f : Fault} (h : s.nextChar = .error f s') :
  s'.bytesLeft ≤ s.bytesLeft
  := by
  rw [nextChar] at h
  split at h
  · next hn =>
    simp at h
    obtain ⟨rfl, rfl⟩ := h
    exact Nat.le_of_eq (bytesLeft_of_next_error hn)
  · simp at h
  · next lead t hn =>
    have hb := bytesLeft_of_next_some hn
    split at h
    · simp at h
    · split at h
      · next hc =>
        simp at h
        obtain ⟨rfl, rfl⟩ := h
        have := bytesLeft_of_continuation_error hc
        omega
      · split at h <;> simp at h

end ByteStream

end Abacus
