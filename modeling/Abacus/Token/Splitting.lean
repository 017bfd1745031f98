import Abacus.Token.Lexical

/-!
# Splitting characters into tokens

`tokensOf` splits a list of characters into tokens without regard to how a reader gets at
them: a blank is skipped, and any other character begins a token, which a number or a constant
extends by the longest run of characters it may go on with.
-/

namespace Abacus

/-- The characters with which a token of the kind goes on at the beginning of `rest`. -/
def Token.Kind.run (kind : Token.Kind) (rest : List Char) : List Char :=
  match kind.continues? with
  | none => []
  | some p => rest.takeWhile p

/-- The tokens of the characters, the first of which is at `position`. -/
def tokensOf (position : Nat) : List Char → List Token
  | [] => []
  | c :: rest =>
    if isBlank c then tokensOf (position + 1) rest
    else
      let kind := Token.kindOfFirst c
      let run := kind.run rest
      .ofChars kind (c :: run) position
        :: tokensOf (position + 1 + run.length) (rest.drop run.length)
termination_by chars => chars.length
decreasing_by
  · simp
  · simp only [List.length_drop, List.length_cons]
    omega

end Abacus
