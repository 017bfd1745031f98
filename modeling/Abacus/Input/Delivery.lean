/-!
# Deliveries of a byte source

A byte source is asked for bytes over time. Each time it hands over a `Delivery`: a piece of
data, a failure, an interruption, or the report that there is no more data for now. A script of
deliveries may have empty pieces, which are not delivered at all: no request is answered with
one, as an answer with no byte is the report of an end. What a reader that takes one byte at a
time gets to see of a script is its list of signals, `signals`: the cutting of the data into
pieces and the interruptions are not part of it, and both ways to report an end are one
`Signal.finish`. After the last signal every further request reports an end.
-/

namespace Abacus

/-- A failed read. -/
structure Fault where
  message : String
  deriving DecidableEq, Repr

/-- An entry of the script of a byte source. Each but an empty piece answers one request for
data. -/
inductive Delivery where
  /-- A piece of data. An empty one is not delivered: the request is answered with what comes
  next. -/
  | data (bytes : List UInt8)
  /-- A failure, which concerns this request only. -/
  | fault (fault : Fault)
  /-- An interruption: the request is made again. -/
  | interrupted
  /-- The report that there is no more data, by an answer with no byte. -/
  | endOfFile
  /-- The report that there is less data than requested. -/
  | unexpectedEnd
  deriving DecidableEq, Repr

/-- What a request for one byte is answered with. -/
inductive Signal where
  | byte (byte : UInt8)
  | fault (fault : Fault)
  /-- The report of an end, which concerns this request only. -/
  | finish
  deriving DecidableEq, Repr

/-- The signal carries a byte. -/
def Signal.isByte : Signal → Bool
  | .byte _ => true
  | .fault _ => false
  | .finish => false

/-- The signals of one delivery. -/
def Delivery.signals : Delivery → List Signal
  | .data bytes => bytes.map .byte
  | .fault f => [.fault f]
  | .interrupted => []
  | .endOfFile => [.finish]
  | .unexpectedEnd => [.finish]

/-- The signals of a script of deliveries, in order. -/
def signals (script : List Delivery) : List Signal :=
  script.flatMap Delivery.signals

/-- The bytes of a text in UTF-8. -/
def bytesOfText (text : String) : List UInt8 :=
  text.toList.flatMap String.utf8EncodeChar

end Abacus
