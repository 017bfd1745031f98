import Abacus.Input.LoggedReader
import Abacus.Proofs.Input.Decoding

/-!
# The representation of what has been read

Between two characters a stream has no more bytes put back than a sequence has behind its first one, and
all but the last of these continue a sequence, `ByteStream.IsShort`: a first byte of a sequence is taken
from the bytes put back only if it is the last of them. A reader agrees with the log of what has been
done with it if its stream is like that and its position counts the characters decoded and not put back,
`CharReader.AgreesWith`. Each step that is allowed keeps this, `ReaderStep.IsAllowed.agreesWith`, and so
does a log of allowed steps, `ReaderLog.LeadsTo.agreesWith`. A logged reader comes from the reader that
its log leads to it from, `LoggedReader.ComesFrom`.
-/

namespace Abacus

namespace ByteStream

/-! ### Bytes put back -/

/-- At most three bytes are put back, and all but the last continue a sequence. -/
structure IsShort (s : ByteStream) : Prop where
  length_waiting_le : s.waiting.length ≤ 3
  isContinuation_of_mem : ∀ b ∈ s.waiting.dropLast, isContinuation b

theorem isShort_of_length_le_one {s : ByteStream} (h : s.waiting.length ≤ 1) :
  s.IsShort
  := by
  constructor
  · apply Nat.le_trans h (by decide)
  · intro b hb
    have hlength := List.length_pos_of_mem hb
    rw [List.length_dropLast] at hlength
    omega

theorem isShort_of_waiting {s : ByteStream} (h : s.waiting = []) :
  s.IsShort
  := by
  apply isShort_of_length_le_one
  rw [h]
  apply Nat.zero_le

theorem announced_le {lead : UInt8} {n : Nat} (h : announced lead = some n) :
  n ≤ 3
  := by
  unfold announced at h
  grind

/-- With no bytes put back, there are none behind the next request. -/
theorem waiting_rest_next {s : ByteStream} (h : s.waiting = []) :
  s.next.rest.waiting = []
  := by
  rcases s with ⟨_ | ⟨_ | _ | _, signals⟩, waiting⟩
  all_goals
    obtain rfl : waiting = [] := h
    rfl

/-- What gathering up to `n` continuation bytes leaves, where no bytes were put back before it: the byte
that stops it is the only one that is put back. -/
inductive Gathers (n : Nat) : Outcome ByteStream (List UInt8) → Prop
  | failed {f : Fault} {s : ByteStream} (h : s.waiting = []) : Gathers n (.error f s)
  | gathered {bytes : List UInt8} {s : ByteStream} (hall : ∀ b ∈ bytes, isContinuation b)
      (hlength : bytes.length + s.waiting.length ≤ n) (hstop : s.waiting.length ≤ 1) :
      Gathers n (.ok bytes s)

theorem Gathers.nil {s : ByteStream} (h : s.waiting = []) (n : Nat) :
  Gathers n (.ok [] s)
  := by
  constructor
  · apply List.forall_mem_nil
  · simp [h]
  · simp [h]

theorem gathers_continuation {s : ByteStream} (h : s.waiting = []) (n : Nat) :
  Gathers n (s.continuation n)
  := by
  fun_induction continuation n s with
  | case1 s => apply Gathers.nil h
  | case2 n s f s' hnext =>
    have hwaiting := waiting_rest_next h
    rw [hnext] at hwaiting
    apply Gathers.failed hwaiting
  | case3 n s s' hnext =>
    have hwaiting := waiting_rest_next h
    rw [hnext] at hwaiting
    apply Gathers.nil hwaiting
  | case4 n s b s' hnext hb f u hrest ih =>
    have hwaiting := waiting_rest_next h
    rw [hnext] at hwaiting
    have hgathers := ih hwaiting
    rw [hrest] at hgathers
    cases hgathers with
    | failed h => apply Gathers.failed h
  | case5 n s b s' hnext hb bytes u hrest ih =>
    have hwaiting := waiting_rest_next h
    rw [hnext] at hwaiting
    have hgathers := ih hwaiting
    rw [hrest] at hgathers
    cases hgathers with
    | gathered hall hlength hstop =>
      apply Gathers.gathered _ _ hstop
      · rw [List.forall_mem_cons]
        exact ⟨hb, hall⟩
      · rw [List.length_cons]
        omega
  | case6 n s b s' hnext hb =>
    have hwaiting : s'.waiting = [] := by
      have hwaiting := waiting_rest_next h
      rwa [hnext] at hwaiting
    apply Gathers.gathered (List.forall_mem_nil _)
    · simp [putBack, hwaiting]
    · simp [putBack, hwaiting]

/-- Bytes that continue a sequence, put back in front of at most one byte. -/
theorem isShort_putBack {bytes : List UInt8} {s : ByteStream} (hall : ∀ b ∈ bytes, isContinuation b)
    (hlength : bytes.length + s.waiting.length ≤ 3) (hstop : s.waiting.length ≤ 1) :
  (s.putBack bytes).IsShort
  := by
  rcases s with ⟨signals, _ | ⟨stop, _ | ⟨b, waiting⟩⟩⟩
  · constructor
    · simpa [putBack] using hlength
    · intro b hb
      rw [putBack, List.append_nil] at hb
      apply hall b ((List.dropLast_subset bytes) hb)
  · constructor
    · simpa [putBack] using hlength
    · intro b hb
      rw [putBack, List.dropLast_concat] at hb
      apply hall b hb
  · cases Nat.le_of_succ_le_succ hstop

/-- A first byte that leaves no bytes put back leaves few of them behind its character. -/
theorem isShort_nextChar_of_next {s : ByteStream} (h : s.next.rest.waiting = []) :
  s.nextChar.rest.IsShort
  := by
  fun_cases nextChar s with
  | case1 f s' hnext | case2 s' hnext | case3 lead s' hnext hannounced =>
    rw [hnext] at h
    apply isShort_of_waiting h
  | case4 lead s' hnext n hannounced f u hcontinuation =>
    rw [hnext] at h
    have hgathers : Gathers n (s'.continuation n) := gathers_continuation h n
    rw [hcontinuation] at hgathers
    cases hgathers with
    | failed hu => apply isShort_of_waiting hu
  | case5 lead s' hnext n hannounced tail u hcontinuation c hc =>
    rw [hnext] at h
    have hgathers : Gathers n (s'.continuation n) := gathers_continuation h n
    rw [hcontinuation] at hgathers
    cases hgathers with
    | gathered hall hlength hstop => apply isShort_of_length_le_one hstop
  | case6 lead s' hnext n hannounced tail u hcontinuation hc =>
    rw [hnext] at h
    have hgathers : Gathers n (s'.continuation n) := gathers_continuation h n
    rw [hcontinuation] at hgathers
    cases hgathers with
    | gathered hall hlength hstop =>
      apply isShort_putBack hall _ hstop
      apply Nat.le_trans hlength (announced_le hannounced)

/-- A character leaves few bytes put back. -/
theorem IsShort.nextChar {s : ByteStream} (h : s.IsShort) :
  s.nextChar.rest.IsShort
  := by
  rcases s with ⟨signals, _ | ⟨b, _ | ⟨b', waiting⟩⟩⟩
  · apply isShort_nextChar_of_next
    apply waiting_rest_next rfl
  · apply isShort_nextChar_of_next
    rfl
  · -- The first byte continues a sequence and so starts none.
    have hb : isContinuation b := h.isContinuation_of_mem b List.mem_cons_self
    have hchar : (ByteStream.mk signals (b :: b' :: waiting)).nextChar
        = .ok (some ⟨replacement, 1, by decide⟩) ⟨signals, b' :: waiting⟩ := by
      simp only [ByteStream.nextChar, next, announced_of_isContinuation hb]
    rw [hchar]
    constructor
    · apply Nat.le_of_succ_le h.length_waiting_le
    · intro c hc
      apply h.isContinuation_of_mem c (List.mem_cons_of_mem b hc)

end ByteStream

/-! ### Readers and their logs -/

/-- The reader agrees with what has been done with it. -/
structure CharReader.AgreesWith (r : CharReader) (log : ReaderLog) : Prop where
  isShort : r.bytes.IsShort
  /-- The position counts the characters decoded, without the one put back if there is one. -/
  position_add_held : r.position + (if r.held.isSome then 1 else 0) = log.decoded

theorem ReaderLog.decoded_cons (step : ReaderStep) (log : ReaderLog) :
  decoded (step :: log) = log.decoded + (if step.decodes then 1 else 0)
  := List.countP_cons

namespace CharReader.AgreesWith

variable {r : CharReader} {log : ReaderLog}

theorem ofSignals (signals : List Signal) :
  (CharReader.ofSignals signals).AgreesWith []
  := by
  constructor
  · apply ByteStream.isShort_of_waiting rfl
  · rfl

theorem read (h : r.AgreesWith log) :
  r.read.rest.AgreesWith (.read r r.read.result :: log)
  := by
  obtain ⟨hshort, hposition⟩ := h
  have hnext := hshort.nextChar
  fun_cases CharReader.read r with
  | case1 c hheld =>
    -- The character put back is read again, so none is decoded.
    constructor
    · apply hshort
    · rw [ReaderLog.decoded_cons, ← hposition]
      simp [Outcome.rest, Outcome.result, ReaderStep.decodes, hheld]
  | case2 hheld f bytes hchar | case3 hheld bytes hchar | case4 hheld c bytes hchar =>
    rw [hchar] at hnext
    constructor
    · apply hnext
    · rw [ReaderLog.decoded_cons, ← hposition]
      simp [Outcome.rest, Outcome.result, ReaderStep.decodes, hheld]

theorem putBack (h : r.AgreesWith log) (hheld : r.held = none) (hpos : 0 < r.position)
    (c : SizedChar) :
  (r.putBack c).AgreesWith (.putBack r c :: log)
  := by
  obtain ⟨hshort, hposition⟩ := h
  rw [hheld] at hposition
  constructor
  · apply hshort
  · rw [ReaderLog.decoded_cons]
    apply (Nat.sub_add_cancel hpos).trans hposition

end CharReader.AgreesWith

/-- Each allowed step keeps a reader in agreement with the log. -/
theorem ReaderStep.IsAllowed.agreesWith {step : ReaderStep} {earlier : ReaderLog}
    (hstep : step.IsAllowed earlier) (h : step.before.AgreesWith earlier) :
  step.after.AgreesWith (step :: earlier)
  := by
  cases step with
  | read before result =>
    obtain rfl : before.read.result = result := hstep
    apply h.read
  | putBack before c =>
    obtain ⟨hheld, -, hpos⟩ := hstep
    apply h.putBack hheld hpos
  | locate before => exact ⟨h.isShort, h.position_add_held⟩

/-- A reader that agrees with nothing having been done does so with whatever is done. -/
theorem ReaderLog.LeadsTo.agreesWith {start r : CharReader} {log : ReaderLog}
    (h : log.LeadsTo start r) (hstart : start.AgreesWith []) :
  r.AgreesWith log
  := by
  induction log generalizing r with
  | nil =>
    obtain rfl : r = start := h
    apply hstart
  | cons step earlier ih =>
    obtain ⟨rfl, hstep, hearlier⟩ := h
    apply hstep.agreesWith (ih hearlier)

/-! ### Steps of logged readers -/

namespace LoggedReader

/-- The character was read last, and it has not been put back. -/
structure HasRead (r : LoggedReader) (c : SizedChar) : Prop where
  held_eq : r.reader.held = none
  latest_eq : r.log.latest? = some (.ok (some c))
  position_pos : 0 < r.reader.position

theorem hasRead_of_read {r r' : LoggedReader} {c : SizedChar} (h : r.read = .ok (some c) r') :
  r'.HasRead c
  := by
  rw [read] at h
  split at h
  · cases h
  · next reader hread =>
    cases h
    constructor
    · apply CharReader.held_of_read_some hread
    · rfl
    · rw [CharReader.position_of_read_some hread]
      apply Nat.succ_pos

/-- The log of the reader consists of allowed steps, which lead from `start` to the reader. -/
def ComesFrom (start : CharReader) (r : LoggedReader) : Prop :=
  r.log.LeadsTo start r.reader

namespace ComesFrom

variable {start : CharReader} {r r' : LoggedReader} {c : SizedChar}

theorem ofSignals (signals : List Signal) :
  ComesFrom (.ofSignals signals) (.ofSignals signals)
  := rfl

theorem read {o : Outcome LoggedReader (Option SizedChar)} (h : ComesFrom start r)
    (ho : r.read = o) :
  ComesFrom start o.rest
  := by
  subst ho
  fun_cases LoggedReader.read r with
  | case1 f reader hread | case2 c reader hread =>
    have hrest := congrArg Outcome.rest hread
    have hresult := congrArg Outcome.result hread
    exact ⟨hrest.symm, hresult, h⟩

theorem putBack (h : ComesFrom start r) (hc : r.HasRead c) :
  ComesFrom start (r.putBack c)
  := ⟨rfl, ⟨hc.held_eq, hc.latest_eq, hc.position_pos⟩, h⟩

theorem locate {position : Nat} (h : ComesFrom start r) (hc : r.HasRead c)
    (hlocate : r.locate = (position, r')) :
  ComesFrom start r'
  := by
  cases hlocate
  exact ⟨rfl, hc.position_pos, h⟩

end ComesFrom

end LoggedReader

end Abacus
