import Mathlib
import Abacus.Proofs.Decimal

/-!
# Plain notation

`PlainNotation` is the notation of decimal numbers in which each has one text: no zero stands before
other digits of the whole part, and none at the end of a fraction. What `Decimal.write` writes is in
plain notation, `Decimal.plainNotation_write`.
-/

namespace Abacus

/-- A zero alone, or digits that do not begin with a zero. -/
def IsWholePart (digits : List Char) : Prop :=
  digits = ['0'] ∨ digits ≠ [] ∧ (∀ c ∈ digits, c.isDigit) ∧ digits.head? ≠ some '0'

/-- A whole part, and then a dot and digits that do not end in a zero, or nothing. -/
inductive PlainNotation : List Char → Prop where
  | whole {digits : List Char} (h : IsWholePart digits) : PlainNotation digits
  | dotted {whole fraction : List Char} {last : Char} (hwhole : IsWholePart whole)
      (hdigits : ∀ c ∈ fraction, c.isDigit) (hlast : fraction.getLast? = some last)
      (hne : last ≠ '0') : PlainNotation (whole ++ '.' :: fraction)

namespace Decimal

/-! ### Digits -/

theorem head?_toDigits_ne {n : Nat} (hn : n ≠ 0) :
  (Nat.toDigits 10 n).head? ≠ some '0'
  := by
  induction n using Nat.strongRecOn with
  | ind n ih =>
    rw [Nat.toDigits_eq_if (by decide)]
    split
    · rw [List.head?_cons, ne_eq, Option.some_inj, Nat.digitChar_eq_zero]
      apply hn
    · rw [List.head?_append_of_ne_nil _ Nat.toDigits_ne_nil]
      apply ih <;> omega

theorem isWholePart_toDigits (n : Nat) :
  IsWholePart (Nat.toDigits 10 n)
  := by
  by_cases hn : n = 0
  · left
    rw [hn]
    apply Nat.toDigits_zero
  · right
    exact ⟨Nat.toDigits_ne_nil, fun c hc => isDigit_of_mem_toDigits hc, head?_toDigits_ne hn⟩

theorem getLast?_toDigits (n : Nat) :
  (Nat.toDigits 10 n).getLast? = some (n % 10).digitChar
  := by
  rw [Nat.toDigits_eq_if (by decide)]
  split
  · next hlt => rw [List.getLast?_singleton, Nat.mod_eq_of_lt hlt]
  · apply List.getLast?_concat

theorem getLast?_fractionDigits (m places : Nat) :
  (fractionDigits m places).getLast? = some (m % 10).digitChar
  := by
  rw [fractionDigits, List.leftpad, List.getLast?_append_of_ne_nil _ Nat.toDigits_ne_nil,
    getLast?_toDigits]

/-! ### What is written -/

/-- No place is left, or the last one is needed. -/
theorem normalize_places_or_units (units places : Nat) :
  (normalize units places).places = 0 ∨ (normalize units places).units % 10 ≠ 0
  := by
  fun_induction normalize units places with
  | case1 units => exact .inl rfl
  | case2 units places h ih => apply ih
  | case3 units places h => exact .inr h

/-- What is written with no more places than are needed is in plain notation. -/
theorem plainNotation_write (d : Decimal) :
  PlainNotation d.write.toList
  := by
  have hneeded := normalize_places_or_units d.units d.places
  rw [write, toList_writePlaces]
  generalize normalize d.units d.places = d' at hneeded
  split
  · apply PlainNotation.whole (isWholePart_toDigits _)
  · next hplaces =>
    apply PlainNotation.dotted (isWholePart_toDigits _)
      (fun c hc => isDigit_of_mem_fractionDigits hc) (getLast?_fractionDigits _ _)
    rw [ne_eq, Nat.digitChar_eq_zero, Nat.mod_mod_of_dvd _ (dvd_pow_self 10 hplaces)]
    apply hneeded.resolve_left hplaces

theorem write_zero (places : Nat) :
  write ⟨0, places⟩ = "0"
  := by
  have hnormalize : normalize 0 places = ⟨0, 0⟩ := by
    induction places with
    | zero => rfl
    | succ places ih => rw [normalize, if_pos rfl, Nat.zero_div, ih]
  rw [write, hnormalize]
  rfl

end Decimal

end Abacus
