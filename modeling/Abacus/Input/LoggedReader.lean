import Abacus.Input.CharSource

/-!
# Readers that keep a log

A `LoggedReader` does what a reader of characters does and keeps a log of it: of every read, with what
it has given, of every character put back, and of every request for the position of the character read
last. The log holds each step with the reader as it was before, the latest step first. Without the log
a logged reader is the reader itself, `LoggedReader.read_reader`. A reader may be used as long as only
the character read last is put back, and only once, `ReaderStep.IsAllowed`; a log of allowed steps leads
from one reader to another, `ReaderLog.LeadsTo`.
-/

namespace Abacus

/-- What is done with a reader, which is `before` before it. -/
inductive ReaderStep where
  /-- A character is asked for, with this result. -/
  | read (before : CharReader) (result : Except Fault (Option SizedChar))
  /-- A character is put back. -/
  | putBack (before : CharReader) (c : SizedChar)
  /-- The position of the character read last is asked for. -/
  | locate (before : CharReader)

/-- What has been done with a reader, the latest step first. -/
abbrev ReaderLog : Type := List ReaderStep

namespace ReaderStep

def before : ReaderStep → CharReader
  | read before _ => before
  | putBack before _ => before
  | locate before => before

/-- The reader behind the step. -/
def after : ReaderStep → CharReader
  | read before _ => before.read.rest
  | putBack before c => before.putBack c
  | locate before => before

/-- The result of a read. -/
def result? : ReaderStep → Option (Except Fault (Option SizedChar))
  | read _ result => some result
  | putBack _ _ => none
  | locate _ => none

/-- The step decodes a character: it reads one that has not been put back. -/
def decodes : ReaderStep → Bool
  | read before (.ok (some _)) => before.held.isNone
  | _ => false

end ReaderStep

namespace ReaderLog

/-- The result of the latest read. -/
def latest? (log : ReaderLog) : Option (Except Fault (Option SizedChar)) :=
  log.findSome? ReaderStep.result?

/-- The number of characters decoded. -/
def decoded (log : ReaderLog) : Nat :=
  log.countP ReaderStep.decodes

end ReaderLog

/-- The step may be made behind the earlier ones. The character put back is the one read last, and no
other one is held. No position is lowered below that of the first character. -/
def ReaderStep.IsAllowed (earlier : ReaderLog) : ReaderStep → Prop
  | read before result => before.read.result = result
  | putBack before c =>
    before.held = none ∧ earlier.latest? = some (.ok (some c)) ∧ 0 < before.position
  | locate before => 0 < before.position

/-- The steps are allowed and lead from the reader `start` to the reader `r`. -/
def ReaderLog.LeadsTo (start : CharReader) : ReaderLog → CharReader → Prop
  | [], r => r = start
  | step :: earlier, r =>
    r = step.after ∧ step.IsAllowed earlier ∧ ReaderLog.LeadsTo start earlier step.before

/-- A reader, and the log of what has been done with it. -/
structure LoggedReader where
  reader : CharReader
  log : ReaderLog := []

namespace LoggedReader

/-- The reader at the start of a list of signals, with an empty log. -/
def ofSignals (signals : List Signal) : LoggedReader :=
  { reader := .ofSignals signals }

/-- The next character, or `none` at an end. -/
def read (r : LoggedReader) : Outcome LoggedReader (Option SizedChar) :=
  match r.reader.read with
  | .error f reader => .error f ⟨reader, .read r.reader (.error f) :: r.log⟩
  | .ok c reader => .ok c ⟨reader, .read r.reader (.ok c) :: r.log⟩

/-- Puts back the character read last. -/
def putBack (c : SizedChar) (r : LoggedReader) : LoggedReader :=
  ⟨r.reader.putBack c, .putBack r.reader c :: r.log⟩

/-- The position of the character read last. -/
def locate (r : LoggedReader) : Nat × LoggedReader :=
  (r.reader.position - 1, ⟨r.reader, .locate r.reader :: r.log⟩)

theorem read_reader (r : LoggedReader) :
  r.reader.read = mapState reader r.read
  := by
  rw [read]
  cases r.reader.read <;> rfl

end LoggedReader

instance : CharSource LoggedReader where
  read := LoggedReader.read
  putBack := LoggedReader.putBack
  locate := LoggedReader.locate
  view := LoggedReader.reader
  read_view := LoggedReader.read_reader
  putBack_view _ _ := rfl
  locate_view _ := rfl

end Abacus
