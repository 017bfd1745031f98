import Abacus.Input.CharSource

/-!
# Readers of a source of bytes

A `SourceReader` reads characters from a source of bytes as a `CharReader` reads them from a list of
signals: it asks the source for one byte after the other, keeps the bytes and the character that are
put back, and counts the characters read. Its `view` is the reader of the signals of the source, and
every reading from the source is the reading from the view, `SourceReader.read_view`.
-/

namespace Abacus

/-- A character decoded from a first byte and `n` continuation bytes. -/
def SizedChar.withContinuation (c : Char) (n : Nat) : SizedChar :=
  ⟨c, n + 1, Nat.succ_pos n⟩

/-- A source of bytes, behind the bytes put back. -/
structure SourceStream (σ : Type) where
  source : σ
  waiting : List UInt8 := []

namespace SourceStream

variable {σ : Type} [ByteSource σ]

/-- The stream of the signals of the source. -/
def view (s : SourceStream σ) : ByteStream :=
  ⟨ByteSource.signals s.source, s.waiting⟩

/-- The next byte, or `none` at an end. -/
def next (s : SourceStream σ) : Outcome (SourceStream σ) (Option UInt8) :=
  match s.waiting with
  | b :: waiting => .ok (some b) { s with waiting }
  | [] => mapState (fun source => { source }) (ByteSource.next s.source)

/-- The stream that gives `bytes` before anything else. -/
def putBack (bytes : List UInt8) (s : SourceStream σ) : SourceStream σ :=
  { s with waiting := bytes ++ s.waiting }

/-- Up to `n` continuation bytes. The first byte that is none, or an end, stops the run; such
a byte is put back. -/
def continuation : Nat → SourceStream σ → Outcome (SourceStream σ) (List UInt8)
  | 0, s => .ok [] s
  | n + 1, s =>
    match s.next with
    | .error f s => .error f s
    | .ok none s => .ok [] s
    | .ok (some b) s =>
      if isContinuation b then
        match continuation n s with
        | .error f s => .error f s
        | .ok bytes s => .ok (b :: bytes) s
      else .ok [] (s.putBack [b])

/-- The next character, or `none` at an end. -/
def nextChar (s : SourceStream σ) : Outcome (SourceStream σ) (Option SizedChar) :=
  match s.next with
  | .error f s => .error f s
  | .ok none s => .ok none s
  | .ok (some lead) s =>
    match announced lead with
    | none => .ok (some (.withContinuation replacement 0)) s
    | some n =>
      match s.continuation n with
      | .error f s => .error f s
      | .ok tail s =>
        match firstChar? (lead :: tail) with
        | some c => .ok (some (.withContinuation c tail.length)) s
        | none => .ok (some (.withContinuation replacement 0)) (s.putBack tail)

theorem next_view (s : SourceStream σ) :
  s.view.next = mapState view s.next
  := by
  rcases s with ⟨source, _ | ⟨b, waiting⟩⟩
  · rw [view, ByteSource.next_signals, next]
    cases ByteSource.next source <;> rfl
  · rfl

theorem continuation_view (n : Nat) (s : SourceStream σ) :
  s.view.continuation n = mapState view (s.continuation n)
  := by
  induction n generalizing s with
  | zero => rfl
  | succ n ih =>
    rw [continuation, ByteStream.continuation, next_view]
    cases s.next with
    | error f s => rfl
    | ok b s =>
      cases b with
      | none => rfl
      | some b =>
        simp only [mapState]
        split
        · rw [ih]
          cases s.continuation n <;> rfl
        · rfl

theorem nextChar_view (s : SourceStream σ) :
  s.view.nextChar = mapState view s.nextChar
  := by
  rw [nextChar, ByteStream.nextChar, next_view]
  cases s.next with
  | error f s => rfl
  | ok lead s =>
    cases lead with
    | none => rfl
    | some lead =>
      simp only [mapState]
      cases announced lead with
      | none => rfl
      | some n =>
        simp only [continuation_view]
        cases s.continuation n with
        | error f s => rfl
        | ok tail s =>
          simp only [mapState]
          cases firstChar? (lead :: tail) <;> rfl

end SourceStream

/-- A source of bytes, the character put back, if any, and the count of the characters read. -/
structure SourceReader (σ : Type) where
  bytes : SourceStream σ
  held : Option SizedChar := none
  position : Nat := 0

namespace SourceReader

variable {σ : Type} [ByteSource σ]

/-- The reader at the start of a source. -/
def ofSource (source : σ) : SourceReader σ :=
  { bytes := { source } }

/-- The reader of the signals of the source. -/
def view (r : SourceReader σ) : CharReader :=
  ⟨r.bytes.view, r.held, r.position⟩

/-- The next character, or `none` at an end: the one put back if there is one, else the next
one of the source. -/
def read (r : SourceReader σ) : Outcome (SourceReader σ) (Option SizedChar) :=
  match r.held with
  | some c => .ok (some c) { r with held := none, position := r.position + 1 }
  | none =>
    match r.bytes.nextChar with
    | .error f bytes => .error f { r with bytes }
    | .ok none bytes => .ok none { r with bytes }
    | .ok (some c) bytes => .ok (some c) { r with bytes, position := r.position + 1 }

/-- Puts back the character read last. -/
def putBack (c : SizedChar) (r : SourceReader σ) : SourceReader σ :=
  { r with held := some c, position := r.position - 1 }

theorem read_view (r : SourceReader σ) :
  r.view.read = mapState view r.read
  := by
  rcases r with ⟨bytes, _ | c, position⟩
  · dsimp only [view, read, CharReader.read]
    rw [SourceStream.nextChar_view]
    cases bytes.nextChar with
    | error f bytes => rfl
    | ok c bytes => cases c <;> rfl
  · rfl

end SourceReader

instance {σ : Type} [ByteSource σ] : CharSource (SourceReader σ) where
  read := SourceReader.read
  putBack := SourceReader.putBack
  locate r := (r.position - 1, r)
  view := SourceReader.view
  read_view := SourceReader.read_view
  putBack_view _ _ := rfl
  locate_view _ := rfl

/-- The reader at the start of a script of deliveries. -/
def SourceReader.ofScript (script : List Delivery) : SourceReader Channel :=
  ofSource { script }

end Abacus
