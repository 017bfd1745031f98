import Abacus.Input.Delivery

/-!
# Scripts that deliver the same signals

Two scripts are rechunkings of each other if they differ only in how data is cut into pieces,
in empty pieces, in interruptions, and in which of the two reports of an end is used.
Rechunked scripts have the same signals, `Rechunked.signals_eq`, so no reader tells them
apart.
-/

namespace Abacus

/-- The scripts differ in the cutting of data, in empty pieces, in interruptions and in the
choice of the report of an end only. -/
inductive Rechunked : List Delivery → List Delivery → Prop
  | refl (script : List Delivery) : Rechunked script script
  | symm {script script' : List Delivery} : Rechunked script script' → Rechunked script' script
  | trans {script script' script'' : List Delivery} :
      Rechunked script script' → Rechunked script' script'' → Rechunked script script''
  /-- A piece of data is cut in two. -/
  | cut (before after : List Delivery) (bytes bytes' : List UInt8) :
      Rechunked (before ++ .data (bytes ++ bytes') :: after)
        (before ++ .data bytes :: .data bytes' :: after)
  /-- An empty piece is inserted. -/
  | empty (before after : List Delivery) :
      Rechunked (before ++ after) (before ++ .data [] :: after)
  /-- An interruption is inserted. -/
  | interruption (before after : List Delivery) :
      Rechunked (before ++ after) (before ++ .interrupted :: after)
  /-- An end is reported the other way. -/
  | finish (before after : List Delivery) :
      Rechunked (before ++ .endOfFile :: after) (before ++ .unexpectedEnd :: after)

/-- Rechunked scripts have the same signals. -/
theorem Rechunked.signals_eq {script script' : List Delivery} (h : Rechunked script script') :
  signals script = signals script'
  := by
  induction h with
  | refl => rfl
  | symm _ ih => exact ih.symm
  | trans _ _ ih ih' => exact ih.trans ih'
  | cut | empty | interruption | finish => simp [signals, Delivery.signals]

end Abacus
