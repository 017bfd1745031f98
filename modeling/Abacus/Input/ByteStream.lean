import Abacus.Input.Delivery

/-!
# Streams of bytes with bytes put back

A `ByteStream` gives the bytes of a list of signals one by one, with `next`, and takes bytes
back, with `putBack`, to give them again before any later signal. The signals still to come,
the bytes put back among them, are `ahead`, and `bytesLeft` counts the bytes among these.
-/

namespace Abacus

/-- What an operation on a source leaves: a result or a fault, and the state in either
case. -/
abbrev Outcome (σ α : Type) : Type := EStateM.Result Fault σ α

/-- What an operation gives. -/
def Outcome.result {σ α : Type} : Outcome σ α → Except Fault α
  | .ok a _ => .ok a
  | .error f _ => .error f

/-- What an operation leaves. -/
def Outcome.rest {σ α : Type} : Outcome σ α → σ
  | .ok _ s => s
  | .error _ s => s

/-- The signals not yet asked for, after the bytes put back. -/
structure ByteStream where
  signals : List Signal
  waiting : List UInt8 := []
  deriving DecidableEq, Repr

namespace ByteStream

/-- The next byte, or `none` at an end. A fault and an end are used up by the request that
meets them. -/
def next : ByteStream → Outcome ByteStream (Option UInt8)
  | ⟨signals, b :: waiting⟩ => .ok (some b) ⟨signals, waiting⟩
  | ⟨.byte b :: signals, []⟩ => .ok (some b) ⟨signals, []⟩
  | ⟨.finish :: signals, []⟩ => .ok none ⟨signals, []⟩
  | ⟨.fault f :: signals, []⟩ => .error f ⟨signals, []⟩
  | ⟨[], []⟩ => .ok none ⟨[], []⟩

/-- The stream that gives `bytes` before anything else. -/
def putBack (bytes : List UInt8) (s : ByteStream) : ByteStream :=
  { s with waiting := bytes ++ s.waiting }

/-- The signals still to come. -/
def ahead (s : ByteStream) : List Signal :=
  s.waiting.map .byte ++ s.signals

/-- The number of bytes still to come. -/
def bytesLeft (s : ByteStream) : Nat :=
  s.waiting.length + s.signals.countP Signal.isByte

@[simp]
theorem ahead_putBack (bytes : List UInt8) (s : ByteStream) :
  (s.putBack bytes).ahead = bytes.map .byte ++ s.ahead
  := by
  simp [ahead, putBack]

@[simp]
theorem bytesLeft_putBack (bytes : List UInt8) (s : ByteStream) :
  (s.putBack bytes).bytesLeft = bytes.length + s.bytesLeft
  := by
  simp [bytesLeft, putBack, Nat.add_assoc]

/-- A byte given is a byte less to come. -/
theorem bytesLeft_of_next_some {s s' : ByteStream} {b : UInt8} (h : s.next = .ok (some b) s') :
  s'.bytesLeft + 1 = s.bytesLeft
  := by
  rcases s with ⟨_ | ⟨_ | _ | _, _⟩, _ | ⟨_, _⟩⟩ <;> simp [next] at h
  all_goals
    obtain ⟨rfl, rfl⟩ := h
    simp [bytesLeft, List.countP_cons, Signal.isByte, Nat.add_right_comm]

/-- The report of an end takes no byte. -/
theorem bytesLeft_of_next_none {s s' : ByteStream} (h : s.next = .ok none s') :
  s'.bytesLeft = s.bytesLeft
  := by
  rcases s with ⟨_ | ⟨_ | _ | _, _⟩, _ | ⟨_, _⟩⟩ <;> simp [next] at h
  all_goals
    subst h
    simp [bytesLeft, Signal.isByte]

/-- A fault takes no byte. -/
theorem bytesLeft_of_next_error {s s' : ByteStream} {f : Fault} (h : s.next = .error f s') :
  s'.bytesLeft = s.bytesLeft
  := by
  rcases s with ⟨_ | ⟨_ | _ | _, _⟩, _ | ⟨_, _⟩⟩ <;> simp [next] at h
  obtain ⟨rfl, rfl⟩ := h
  simp [bytesLeft, Signal.isByte]

end ByteStream

end Abacus
