import Abacus.Input.CharReader
import Abacus.Input.Rechunking
import Abacus.Proofs.Input.Encoding

/-!
# Characters read from a source

What a stream answers is decided by the signals ahead of it: the bytes put back are as good as
bytes that are still to come. So the next character of a stream with bytes ahead is the first one
that the bytes decode to, unless they are incomplete, `ByteStream.nextChar_of_ahead`; incomplete
bytes are lost to a fault behind them and decoded one by one at an end. `CharReader.Reads` says
that a reader gives a list of characters and which reader is left. A reader with bytes ahead gives
the characters that they decode to and is then at the fault or the end behind them,
`CharReader.reads_of_fault` and `CharReader.reads_of_end`.
-/

namespace Abacus

namespace ByteStream

/-! ### Single signals -/

theorem next_of_ahead_byte {s : ByteStream} {b : UInt8} {signals : List Signal}
    (h : s.ahead = .byte b :: signals) :
  ∃ s', s.next = .ok (some b) s' ∧ s'.ahead = signals
  := by
  rcases s with ⟨ahead, _ | ⟨b', waiting⟩⟩
  · obtain rfl : ahead = .byte b :: signals := h
    exact ⟨⟨signals, []⟩, rfl, rfl⟩
  · obtain ⟨hb, rfl⟩ := List.cons.inj h
    obtain rfl := Signal.byte.inj hb
    exact ⟨⟨ahead, waiting⟩, rfl, rfl⟩

/-- A fault ahead is met with no bytes put back. -/
theorem next_of_ahead_fault {s : ByteStream} {f : Fault} {signals : List Signal}
    (h : s.ahead = .fault f :: signals) :
  s.next = .error f ⟨signals, []⟩
  := by
  rcases s with ⟨ahead, _ | ⟨b, waiting⟩⟩
  · obtain rfl : ahead = .fault f :: signals := h
    rfl
  · cases (List.cons.inj h).1

/-- An end ahead, reported or not, is met with no bytes put back. -/
theorem next_of_ahead_end {s : ByteStream} (h : ∀ x ∈ s.ahead.head?, x = .finish) :
  s.next = .ok none ⟨s.ahead.tail, []⟩
  := by
  rcases s with ⟨_ | ⟨signal, signals⟩, _ | ⟨b, waiting⟩⟩
  · rfl
  · cases h (.byte b) rfl
  · obtain rfl := h signal rfl
    rfl
  · cases h (.byte b) rfl

/-! ### Continuation bytes -/

theorem gathered_cons_of_pos {b : UInt8} (h : isContinuation b) (n : Nat) (rest : List UInt8) :
  gathered (n + 1) (b :: rest) = b :: gathered n rest
  := by
  rw [gathered, List.takeWhile_cons_of_pos h, List.take_succ_cons, gathered]

theorem gathered_cons_of_neg {b : UInt8} (h : ¬ isContinuation b) (n : Nat) (rest : List UInt8) :
  gathered n (b :: rest) = []
  := by
  rw [gathered, List.takeWhile_cons_of_neg h, List.take_nil]

/-- The continuation bytes are taken from the bytes ahead, if there are enough of these or one of
them is none. -/
theorem continuation_of_ahead {n : Nat} {s : ByteStream} {rest : List UInt8} {tail : List Signal}
    (h : s.ahead = rest.map .byte ++ tail) (hstop : ¬ (rest.length < n ∧ rest.all isContinuation)) :
  ∃ s', s.continuation n = .ok (gathered n rest) s'
    ∧ s'.ahead = (rest.drop (gathered n rest).length).map .byte ++ tail
  := by
  induction n generalizing s rest with
  | zero => exact ⟨s, rfl, h⟩
  | succ n ih =>
    cases rest with
    | nil => apply absurd ⟨Nat.succ_pos n, rfl⟩ hstop
    | cons b rest =>
      obtain ⟨t, hnext, ht⟩ := next_of_ahead_byte h
      by_cases hb : isContinuation b
      · have hstop' : ¬ (rest.length < n ∧ rest.all isContinuation) := by
          simpa [hb] using hstop
        obtain ⟨s', hcontinuation, hs'⟩ := ih ht hstop'
        use s'
        rw [gathered_cons_of_pos hb]
        simp only [continuation, hnext, hb, hcontinuation, if_true, List.length_cons,
          List.drop_succ_cons, hs', and_self]
      · use t.putBack [b]
        rw [gathered_cons_of_neg hb]
        simp [continuation, hnext, hb, ht]

/-- A fault behind too few continuation bytes loses them. -/
theorem continuation_of_ahead_fault {n : Nat} {s : ByteStream} {rest : List UInt8} {f : Fault}
    {signals : List Signal} (h : s.ahead = rest.map .byte ++ .fault f :: signals)
    (hlt : rest.length < n) (hall : rest.all isContinuation) :
  s.continuation n = .error f ⟨signals, []⟩
  := by
  induction n generalizing s rest with
  | zero => apply absurd hlt (Nat.not_lt_zero _)
  | succ n ih =>
    cases rest with
    | nil => simp only [continuation, next_of_ahead_fault h]
    | cons b rest =>
      obtain ⟨t, hnext, ht⟩ := next_of_ahead_byte h
      rw [List.all_cons, Bool.and_eq_true] at hall
      simp only [continuation, hnext, hall.1, if_true, ih ht (Nat.lt_of_succ_lt_succ hlt) hall.2]

/-- An end behind too few continuation bytes leaves them. -/
theorem continuation_of_ahead_end {n : Nat} {s : ByteStream} {rest : List UInt8}
    {tail : List Signal} (h : s.ahead = rest.map .byte ++ tail)
    (htail : ∀ x ∈ tail.head?, x = .finish) (hlt : rest.length < n)
    (hall : rest.all isContinuation) :
  s.continuation n = .ok rest ⟨tail.tail, []⟩
  := by
  induction n generalizing s rest with
  | zero => apply absurd hlt (Nat.not_lt_zero _)
  | succ n ih =>
    cases rest with
    | nil =>
      obtain rfl : s.ahead = tail := h
      simp only [continuation, next_of_ahead_end htail]
    | cons b rest =>
      obtain ⟨t, hnext, ht⟩ := next_of_ahead_byte h
      rw [List.all_cons, Bool.and_eq_true] at hall
      simp only [continuation, hnext, hall.1, if_true, ih ht (Nat.lt_of_succ_lt_succ hlt) hall.2]

/-! ### Characters -/

variable {s : ByteStream} {lead : UInt8} {rest : List UInt8}

/-- The next character is the first one that the bytes ahead decode to, unless they are
incomplete. -/
theorem nextChar_of_ahead {tail : List Signal} (h : s.ahead = (lead :: rest).map .byte ++ tail)
    (hcomplete : ¬ isIncomplete (lead :: rest)) :
  ∃ s', s.nextChar = .ok (some (firstSized lead rest)) s'
    ∧ s'.ahead = ((lead :: rest).drop (firstSized lead rest).width).map .byte ++ tail
  := by
  obtain ⟨t, hnext, ht⟩ := next_of_ahead_byte h
  cases hannounced : announced lead with
  | none =>
    rw [firstSized_of_eq_none (firstChar?_of_announced_eq_none hannounced rest)]
    refine ⟨t, ?_, ht⟩
    simp only [nextChar, hnext, hannounced]
    rfl
  | some n =>
    have hstop : ¬ (rest.length < n ∧ rest.all isContinuation) := fun hn =>
      hcomplete (isIncomplete_cons_iff.mpr ⟨n, hannounced, hn⟩)
    obtain ⟨u, hcontinuation, hu⟩ := continuation_of_ahead ht hstop
    cases hc : firstChar? (lead :: gathered n rest) with
    | none =>
      rw [firstSized_of_eq_none ((firstChar?_gathered hannounced rest).symm.trans hc)]
      use u.putBack (gathered n rest)
      constructor
      · simp only [nextChar, hnext, hannounced, hcontinuation, hc]
        rfl
      · rw [ahead_putBack, hu, ← List.append_assoc, ← List.map_append, gathered_append_drop]
        rfl
    | some c =>
      have hsize := utf8Size_of_firstChar?_gathered hannounced hc
      have hfirst : firstSized lead rest = ⟨c, (gathered n rest).length + 1, Nat.succ_pos _⟩ := by
        rw [firstSized, ← firstChar?_gathered hannounced, hc]
        simp [SizedChar.encoded, hsize]
      rw [hfirst]
      refine ⟨u, ?_, hu⟩
      simp only [nextChar, hnext, hannounced, hcontinuation, hc]

/-- A fault behind incomplete bytes loses them. -/
theorem nextChar_of_ahead_fault {bytes : List UInt8} {f : Fault} {signals : List Signal}
    (h : s.ahead = bytes.map .byte ++ .fault f :: signals)
    (hbytes : bytes = [] ∨ isIncomplete bytes) :
  s.nextChar = .error f ⟨signals, []⟩
  := by
  cases bytes with
  | nil => simp only [nextChar, next_of_ahead_fault h]
  | cons lead rest =>
    obtain ⟨t, hnext, ht⟩ := next_of_ahead_byte h
    have hincomplete : isIncomplete (lead :: rest) := hbytes.resolve_left (List.cons_ne_nil _ _)
    obtain ⟨n, hannounced, hlt, hall⟩ := isIncomplete_cons_iff.mp hincomplete
    simp only [nextChar, hnext, hannounced, continuation_of_ahead_fault ht hlt hall]

theorem nextChar_of_end (h : ∀ x ∈ s.ahead.head?, x = .finish) :
  s.nextChar = .ok none ⟨s.ahead.tail, []⟩
  := by
  simp only [nextChar, next_of_ahead_end h]

/-- At an end behind incomplete bytes only their first byte is used up, and the end. -/
theorem nextChar_of_ahead_end {tail : List Signal} (h : s.ahead = (lead :: rest).map .byte ++ tail)
    (htail : ∀ x ∈ tail.head?, x = .finish) (hincomplete : isIncomplete (lead :: rest)) :
  s.nextChar = .ok (some .malformed) ⟨tail.tail, rest⟩
  := by
  obtain ⟨t, hnext, ht⟩ := next_of_ahead_byte h
  obtain ⟨n, hannounced, hlt, hall⟩ := isIncomplete_cons_iff.mp hincomplete
  have hcontinuation := continuation_of_ahead_end ht htail hlt hall
  simp only [nextChar, hnext, hannounced, hcontinuation, firstChar?_of_isIncomplete hincomplete]
  rw [putBack, List.append_nil]
  rfl

/-- The next character of a stream with nothing but ends behind the bytes is the first one that
these decode to. An incomplete sequence uses up the end that it meets. -/
theorem nextChar_of_ahead_ends {tail : List Signal}
    (h : s.ahead = (lead :: rest).map .byte ++ tail) (htail : ∀ x ∈ tail, x = .finish) :
  ∃ s' tail', s.nextChar = .ok (some (firstSized lead rest)) s'
    ∧ s'.ahead = ((lead :: rest).drop (firstSized lead rest).width).map .byte ++ tail'
    ∧ ∀ x ∈ tail', x = .finish
  := by
  by_cases hincomplete : isIncomplete (lead :: rest)
  · rw [firstSized_of_eq_none (firstChar?_of_isIncomplete hincomplete)]
    refine ⟨⟨tail.tail, rest⟩, tail.tail, ?_, rfl, ?_⟩
    · apply nextChar_of_ahead_end h _ hincomplete
      intro x hx
      apply htail x (List.mem_of_mem_head? hx)
    · intro x hx
      apply htail x (List.mem_of_mem_tail hx)
  · obtain ⟨s', hchar, hs'⟩ := nextChar_of_ahead h hincomplete
    exact ⟨s', tail, hchar, hs', htail⟩

end ByteStream

/-! ### Runs of characters -/

namespace CharReader

/-- The reader gives the characters one after the other, and `z` is left. -/
inductive Reads : CharReader → List SizedChar → CharReader → Prop
  | nil (r : CharReader) : Reads r [] r
  | cons {r r' z : CharReader} {c : SizedChar} {chars : List SizedChar}
      (h : r.read = .ok (some c) r') (hrest : Reads r' chars z) : Reads r (c :: chars) z

theorem read_of_nextChar_some {r : CharReader} {c : SizedChar} {s : ByteStream}
    (hheld : r.held = none) (h : r.bytes.nextChar = .ok (some c) s) :
  r.read = .ok (some c) ⟨s, none, r.position + 1⟩
  := by
  simp only [read, hheld, h]

theorem read_of_nextChar_none {r : CharReader} {s : ByteStream} (hheld : r.held = none)
    (h : r.bytes.nextChar = .ok none s) :
  r.read = .ok none ⟨s, none, r.position⟩
  := by
  simp only [read, hheld, h]

theorem read_of_nextChar_error {r : CharReader} {f : Fault} {s : ByteStream}
    (hheld : r.held = none) (h : r.bytes.nextChar = .error f s) :
  r.read = .error f ⟨s, none, r.position⟩
  := by
  simp only [read, hheld, h]

theorem held_of_read_some {r r' : CharReader} {c : SizedChar} (h : r.read = .ok (some c) r') :
  r'.held = none
  := (bytesLeft_of_read_some h).2

theorem position_of_read_some {r r' : CharReader} {c : SizedChar}
    (h : r.read = .ok (some c) r') :
  r'.position = r.position + 1
  := by
  rcases r with ⟨bytes, _ | held, position⟩
  · simp only [read] at h
    split at h
    · cases h
    · cases h
    · cases h
      rfl
  · cases h
    rfl

/-- A character put back is read again, and nothing else has changed. -/
theorem read_putBack {r r' : CharReader} {c : SizedChar} (h : r.read = .ok (some c) r') :
  (r'.putBack c).read = .ok (some c) r'
  := by
  have hheld := held_of_read_some h
  have hposition := position_of_read_some h
  rcases r' with ⟨bytes, held, position⟩
  obtain rfl : held = none := hheld
  obtain rfl : position = r.position + 1 := hposition
  rfl

theorem Reads.position_eq {r z : CharReader} {chars : List SizedChar} (h : r.Reads chars z) :
  z.position = r.position + chars.length
  := by
  induction h with
  | nil => rfl
  | cons h _ ih =>
    rw [ih, position_of_read_some h, List.length_cons]
    omega

/-- Runs of characters one behind the other. -/
theorem Reads.append {r y z : CharReader} {chars chars' : List SizedChar} (h : r.Reads chars y)
    (h' : y.Reads chars' z) :
  r.Reads (chars ++ chars') z
  := by
  induction h with
  | nil => apply h'
  | cons hread _ ih => apply Reads.cons hread (ih h')

/-- A reader with complete bytes ahead gives their characters, and what is behind them is left. -/
theorem reads_of_ahead {r : CharReader} {whole tail : List UInt8} {signals : List Signal}
    (hheld : r.held = none) (h : r.bytes.ahead = (whole ++ tail).map .byte ++ signals)
    (hbreak : BreaksOff whole tail) :
  ∃ z, r.Reads (charsOf whole) z ∧ z.held = none ∧ z.bytes.ahead = tail.map .byte ++ signals
  := by
  induction hlength : whole.length using Nat.strongRecOn generalizing r whole with
  | ind length ih =>
    cases whole with
    | nil =>
      rw [charsOf]
      exact ⟨r, .nil r, hheld, h⟩
    | cons lead rest =>
      rw [List.cons_append] at h
      obtain ⟨s, hchar, hs⟩ := ByteStream.nextChar_of_ahead h hbreak.not_isIncomplete
      rw [firstSized_append lead rest hbreak.head] at hchar hs
      have hle := width_firstSized_le lead rest
      have hpos := (firstSized lead rest).width_pos
      rw [← List.cons_append, List.drop_append_of_le_length hle] at hs
      have hread := read_of_nextChar_some hheld hchar
      have hlt : ((lead :: rest).drop (firstSized lead rest).width).length < length := by
        rw [← hlength, List.length_drop]
        omega
      obtain ⟨z, hreads, hz⟩ :=
        ih _ hlt (r := ⟨s, none, r.position + 1⟩) rfl hs (hbreak.drop _) rfl
      rw [charsOf_cons]
      exact ⟨z, .cons hread hreads, hz⟩

/-- A reader with complete bytes ahead of a fault gives their characters and is then at the
fault, which takes the incomplete sequence before it along. -/
theorem reads_of_fault {r : CharReader} {whole tail : List UInt8} {f : Fault}
    {signals : List Signal} (hheld : r.held = none)
    (h : r.bytes.ahead = (whole ++ tail).map .byte ++ .fault f :: signals)
    (hbreak : BreaksOff whole tail) :
  ∃ z, r.Reads (charsOf whole) z
    ∧ z.read = .error f ⟨⟨signals, []⟩, none, r.position + (charsOf whole).length⟩
  := by
  obtain ⟨z, hreads, hz, hahead⟩ := reads_of_ahead hheld h hbreak
  have hchar := ByteStream.nextChar_of_ahead_fault hahead
    (hbreak.elim .inr fun htail => .inl htail.1)
  refine ⟨z, hreads, ?_⟩
  rw [← hreads.position_eq]
  apply read_of_nextChar_error hz hchar

/-- Continuation bytes put back are malformed characters one by one, and what is behind them is not
touched. -/
theorem reads_of_waiting {signals : List Signal} {waiting : List UInt8}
    (h : ∀ b ∈ waiting, isContinuation b) (position : Nat) :
  Reads ⟨⟨signals, waiting⟩, none, position⟩ (charsOf waiting)
    ⟨⟨signals, []⟩, none, position + waiting.length⟩
  := by
  induction waiting generalizing position with
  | nil =>
    rw [charsOf]
    apply Reads.nil
  | cons b waiting ih =>
    rw [List.forall_mem_cons] at h
    have hannounced := announced_of_isContinuation h.1
    have hfirst := firstSized_of_eq_none (firstChar?_of_announced_eq_none hannounced waiting)
    have hread : read ⟨⟨signals, b :: waiting⟩, none, position⟩
        = .ok (some .malformed) ⟨⟨signals, waiting⟩, none, position + 1⟩ := by
      apply read_of_nextChar_some rfl
      simp only [ByteStream.nextChar, ByteStream.next, hannounced]
      rfl
    rw [charsOf_cons, hfirst, List.length_cons, Nat.add_comm waiting.length, ← Nat.add_assoc]
    apply Reads.cons hread (ih h.2 (position + 1))

section

variable {r : CharReader} {whole tail : List UInt8} {signals : List Signal}

/-- A reader with complete bytes ahead of a report of an end gives their characters and is then at
the report. -/
theorem reads_of_finish (hheld : r.held = none)
    (h : r.bytes.ahead = whole.map .byte ++ .finish :: signals) (hbreak : BreaksOff whole []) :
  ∃ z, r.Reads (charsOf whole) z
    ∧ z.read = .ok none ⟨⟨signals, []⟩, none, r.position + (charsOf whole).length⟩
  := by
  rw [← List.append_nil whole] at h
  obtain ⟨z, hreads, hz, hahead⟩ := reads_of_ahead hheld h hbreak
  have hchar : z.bytes.nextChar = .ok none ⟨z.bytes.ahead.tail, []⟩ := by
    apply ByteStream.nextChar_of_end
    rw [hahead]
    rintro x ⟨⟩
    rfl
  rw [hahead] at hchar
  refine ⟨z, hreads, ?_⟩
  rw [← hreads.position_eq]
  apply read_of_nextChar_none hz hchar

/-- A report of an end behind an incomplete sequence is used up by it. The reader gives the
characters of all bytes and is then behind the report. -/
theorem reads_of_incomplete (hheld : r.held = none)
    (h : r.bytes.ahead = (whole ++ tail).map .byte ++ .finish :: signals)
    (htail : isIncomplete tail) :
  r.Reads (charsOf (whole ++ tail))
    ⟨⟨signals, []⟩, none, r.position + (charsOf (whole ++ tail)).length⟩
  := by
  obtain ⟨y, hwhole, hy, hahead⟩ := reads_of_ahead hheld h (.inl htail)
  cases tail with
  | nil => cases htail
  | cons lead rest =>
    obtain ⟨n, -, -, hall⟩ := isIncomplete_cons_iff.mp htail
    have hfirst := firstSized_of_eq_none (firstChar?_of_isIncomplete htail)
    have hend : ∀ x ∈ (.finish :: signals : List Signal).head?, x = .finish := by
      rintro x ⟨⟩
      rfl
    have hread := read_of_nextChar_some hy (ByteStream.nextChar_of_ahead_end hahead hend htail)
    have hrest := Reads.cons hread (reads_of_waiting (List.all_eq_true.mp hall) _)
    have hchars : charsOf (whole ++ lead :: rest) = charsOf whole ++ .malformed :: charsOf rest := by
      rw [charsOf_append whole (not_isContinuation_of_isIncomplete htail), charsOf_cons, hfirst]
      rfl
    rw [hchars]
    have hreads := hwhole.append hrest
    rw [← hreads.position_eq]
    apply hreads

end

/-- The reader has nothing ahead of it but reports of an end. -/
def IsExhausted (r : CharReader) : Prop :=
  r.held = none ∧ ∀ x ∈ r.bytes.ahead, x = .finish

/-- An exhausted reader reads the end again and again. -/
theorem IsExhausted.read_eq {r : CharReader} (h : r.IsExhausted) :
  ∃ z, r.read = .ok none z ∧ z.IsExhausted ∧ z.position = r.position
  := by
  obtain ⟨hheld, hahead⟩ := h
  have hchar := ByteStream.nextChar_of_end fun x hx => hahead x (List.mem_of_mem_head? hx)
  refine ⟨⟨⟨r.bytes.ahead.tail, []⟩, none, r.position⟩, ?_, ⟨rfl, ?_⟩, rfl⟩
  · apply read_of_nextChar_none hheld hchar
  · intro x hx
    apply hahead x (List.mem_of_mem_tail hx)

/-- A reader with bytes ahead of nothing but ends gives their characters and is then
exhausted. -/
theorem reads_of_end {r : CharReader} {bytes : List UInt8} {tail : List Signal}
    (hheld : r.held = none) (h : r.bytes.ahead = bytes.map .byte ++ tail)
    (htail : ∀ x ∈ tail, x = .finish) :
  ∃ z, r.Reads (charsOf bytes) z ∧ z.IsExhausted
  := by
  induction hlength : bytes.length using Nat.strongRecOn generalizing r bytes tail with
  | ind length ih =>
    cases bytes with
    | nil =>
      rw [charsOf]
      refine ⟨r, .nil r, hheld, ?_⟩
      rw [h]
      apply htail
    | cons lead rest =>
      have hle := width_firstSized_le lead rest
      have hpos := (firstSized lead rest).width_pos
      have hlt : ((lead :: rest).drop (firstSized lead rest).width).length < length := by
        rw [← hlength, List.length_drop]
        omega
      obtain ⟨s, tail', hchar, hs, htail'⟩ := ByteStream.nextChar_of_ahead_ends h htail
      have hread := read_of_nextChar_some hheld hchar
      obtain ⟨z, hreads, hz⟩ := ih _ hlt (r := ⟨s, none, r.position + 1⟩) rfl hs htail' rfl
      rw [charsOf_cons]
      exact ⟨z, .cons hread hreads, hz⟩

/-- A fresh reader of bytes with nothing but reports of an end behind them gives their
characters. -/
theorem reads_of_ends {signals : List Signal} {bytes : List UInt8} {ends : Nat}
    (h : signals = bytes.map .byte ++ List.replicate ends .finish) :
  ∃ z, (ofSignals signals).Reads (charsOf bytes) z ∧ z.IsExhausted
    ∧ z.position = (charsOf bytes).length
  := by
  have htail : ∀ x ∈ List.replicate ends Signal.finish, x = .finish := by
    intro x hx
    apply List.eq_of_mem_replicate hx
  obtain ⟨z, hreads, hz⟩ := reads_of_end (r := ofSignals signals) rfl h htail
  refine ⟨z, hreads, hz, ?_⟩
  rw [hreads.position_eq]
  apply Nat.zero_add

/-- A fresh reader of bytes gives their characters. -/
theorem reads_of_bytes (bytes : List UInt8) :
  ∃ z, (ofSignals (bytes.map .byte)).Reads (charsOf bytes) z ∧ z.IsExhausted
  := by
  obtain ⟨z, hreads, hz, -⟩ := @reads_of_ends _ bytes 0 (List.append_nil _).symm
  exact ⟨z, hreads, hz⟩

/-! ### Reading to an end -/

theorem readChars_of_none {r z : CharReader} (h : r.read = .ok none z) :
  r.readChars = .ok [] z
  := by
  rw [readChars]
  split
  · next h' => cases h.symm.trans h'
  · next h' =>
    cases h.symm.trans h'
    rfl
  · next h' => cases h.symm.trans h'

theorem readChars_of_some {r r' z : CharReader} {c : SizedChar} {chars : List Char}
    (h : r.read = .ok (some c) r') (hrest : r'.readChars = .ok chars z) :
  r.readChars = .ok (c.char :: chars) z
  := by
  rw [readChars]
  split
  · next h' => cases h.symm.trans h'
  · next h' => cases h.symm.trans h'
  · next h' =>
    cases h.symm.trans h'
    simp only [hrest]

theorem readChars_of_reads {r z z' : CharReader} {chars : List SizedChar} (h : r.Reads chars z)
    (hz : z.read = .ok none z') :
  r.readChars = .ok (chars.map SizedChar.char) z'
  := by
  induction h with
  | nil => apply readChars_of_none hz
  | cons h _ ih => apply readChars_of_some h (ih hz)

end CharReader

/-- A reader of bytes that no fault and no other end interrupts reads the characters that the bytes
decode to, as `Decodes` says, and these only. The encoding of a text is read as the text. -/
theorem readChars_eq_ok_decodes (script : List Delivery) (bytes : List UInt8) (ends : Nat)
    (h : signals script = bytes.map .byte ++ List.replicate ends .finish) :
  ∃ chars z, (CharReader.ofSignals (signals script)).readChars = .ok chars z
    ∧ (∀ chars', Decodes bytes chars' ↔ chars' = chars)
    ∧ ∀ text : String, bytes = bytesOfText text → chars = text.toList
  := by
  have htail : ∀ x ∈ List.replicate ends Signal.finish, x = .finish := by
    intro x hx
    apply List.eq_of_mem_replicate hx
  obtain ⟨z, hreads, hz⟩ := CharReader.reads_of_end (r := CharReader.ofSignals (signals script))
    rfl h htail
  obtain ⟨z', hread, -⟩ := hz.read_eq
  refine ⟨_, z', CharReader.readChars_of_reads hreads hread, ?_, ?_⟩
  · intro chars'
    rw [decodes_iff]
    apply eq_comm
  · rintro text rfl
    apply map_char_charsOf_bytesOfText

/-- An overlong sequence, a well-formed one in two pieces, a surrogate, and a sequence that the end
breaks off. -/
theorem readChars_interrupted_malformed :
  ∃ z, (CharReader.ofSignals (signals [.data [0xC0, 0x80, 0xE2], .interrupted,
      .data [0x82, 0xAC, 0xED, 0xA0, 0x80, 0x31, 0xF0, 0x9F], .endOfFile])).readChars
    = .ok ['\uFFFD', '\uFFFD', '€', '\uFFFD', '\uFFFD', '\uFFFD', '1', '\uFFFD', '\uFFFD'] z
  := by
  have hend : Decodes [0xF0, 0x9F] ['\uFFFD', '\uFFFD'] :=
    .malformed (firstChar?_eq_none_iff.mp rfl) (.malformed (firstChar?_eq_none_iff.mp rfl) .nil)
  have hsurrogate : Decodes [0xED, 0xA0, 0x80, 0x31, 0xF0, 0x9F]
      ['\uFFFD', '\uFFFD', '\uFFFD', '1', '\uFFFD', '\uFFFD'] :=
    .malformed (firstChar?_eq_none_iff.mp rfl) (.malformed (firstChar?_eq_none_iff.mp rfl)
      (.malformed (firstChar?_eq_none_iff.mp rfl) (.encoded '1' hend)))
  have hall : Decodes [0xC0, 0x80, 0xE2, 0x82, 0xAC, 0xED, 0xA0, 0x80, 0x31, 0xF0, 0x9F]
      ['\uFFFD', '\uFFFD', '€', '\uFFFD', '\uFFFD', '\uFFFD', '1', '\uFFFD', '\uFFFD'] :=
    .malformed (firstChar?_eq_none_iff.mp rfl) (.malformed (firstChar?_eq_none_iff.mp rfl)
      (.encoded '€' hsurrogate))
  obtain ⟨chars, z, hread, hdecodes, -⟩ := readChars_eq_ok_decodes
    [.data [0xC0, 0x80, 0xE2], .interrupted,
      .data [0x82, 0xAC, 0xED, 0xA0, 0x80, 0x31, 0xF0, 0x9F], .endOfFile]
    [0xC0, 0x80, 0xE2, 0x82, 0xAC, 0xED, 0xA0, 0x80, 0x31, 0xF0, 0x9F] 1 rfl
  obtain rfl := (hdecodes _).mp hall
  exact ⟨z, hread⟩

end Abacus
