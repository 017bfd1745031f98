import Abacus.Input.SizedChar

/-!
# The characters of a list of bytes

`charsOf` decodes bytes without regard to how a stream delivers them: where the bytes begin
with the encoding of a character, that character takes up its encoding, and elsewhere the
replacement character takes up one byte.
-/

namespace Abacus

/-- The characters that the bytes decode to. -/
def charsOf : List UInt8 → List SizedChar
  | [] => []
  | b :: rest =>
    match firstChar? (b :: rest) with
    | some c => ⟨c, c.utf8Size, c.utf8Size_pos⟩ :: charsOf (rest.drop (c.utf8Size - 1))
    | none => ⟨replacement, 1, by decide⟩ :: charsOf rest
termination_by bytes => bytes.length
decreasing_by
  · simp only [List.length_drop, List.length_cons]
    omega
  · simp

end Abacus
