import Abacus.Input.ByteStream

/-!
# Sources of bytes

A `ByteSource` answers requests for single bytes. What can be seen of it are its signals, in order:
each request is answered with the next one. A `Channel` is the source of a script of deliveries. It
hands out the piece of data that it holds byte by byte, and asks for the next delivery only when the
piece is used up.
-/

namespace Abacus

/-- The outcome with its state mapped. -/
def mapState {ε σ τ α : Type} (f : σ → τ) : EStateM.Result ε σ α → EStateM.Result ε τ α
  | .ok a s => .ok a (f s)
  | .error e s => .error e (f s)

/-- The values of `σ` give bytes one by one. -/
class ByteSource (σ : Type) where
  /-- The next byte, or `none` at an end. -/
  next : σ → Outcome σ (Option UInt8)
  /-- The signals still to come. Behind the last one there is an end for every request. -/
  signals : σ → List Signal
  /-- A request is answered with the next signal and leaves the others. -/
  next_signals : ∀ s : σ, (ByteStream.mk (signals s) []).next
    = mapState (fun s => ByteStream.mk (signals s) []) (next s)

/-- The deliveries to come, and what is left of the piece of data delivered last. -/
structure Channel where
  script : List Delivery
  piece : List UInt8 := []
  deriving DecidableEq, Repr

namespace Channel

/-- The answer to a request when the piece is used up. An interrupted request is made again. An empty
piece of the script is not delivered at all, since an answer with no byte is the report of the
end. -/
def request : List Delivery → Outcome Channel (Option UInt8)
  | [] => .ok none ⟨[], []⟩
  | .data [] :: script => request script
  | .data (b :: piece) :: script => .ok (some b) ⟨script, piece⟩
  | .fault f :: script => .error f ⟨script, []⟩
  | .interrupted :: script => request script
  | .endOfFile :: script => .ok none ⟨script, []⟩
  | .unexpectedEnd :: script => .ok none ⟨script, []⟩

/-- The next byte, or `none` at an end. -/
def next : Channel → Outcome Channel (Option UInt8)
  | ⟨script, b :: piece⟩ => .ok (some b) ⟨script, piece⟩
  | ⟨script, []⟩ => request script

/-- The signals still to come. -/
def signals (c : Channel) : List Signal :=
  c.piece.map .byte ++ Abacus.signals c.script

theorem request_signals (script : List Delivery) :
  (ByteStream.mk (Abacus.signals script) []).next
    = mapState (fun c => ByteStream.mk c.signals []) (request script)
  := by
  fun_induction request script with
  | case1 => rfl
  | case2 script ih => apply ih
  | case3 b piece script => rfl
  | case4 f script => rfl
  | case5 script ih => apply ih
  | case6 script => rfl
  | case7 script => rfl

theorem next_signals (c : Channel) :
  (ByteStream.mk c.signals []).next = mapState (fun c => ByteStream.mk c.signals []) c.next
  := by
  rcases c with ⟨script, _ | ⟨b, piece⟩⟩
  · apply request_signals
  · rfl

end Channel

instance : ByteSource Channel where
  next := Channel.next
  signals := Channel.signals
  next_signals := Channel.next_signals

end Abacus
