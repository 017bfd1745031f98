import Abacus.Calculation

/-!
# The command

`Command.run` is the command line of the calculator: it evaluates the expression made up of
the words among its arguments, and prints the expression as it was read with its value, or
the value alone.
-/

namespace Abacus.Command

/-- The option to print the value alone, and the words of the expression. -/
structure Arguments where
  quiet : Bool
  words : List String
  deriving DecidableEq, Repr

/-- The arguments split into options and words. Options come before the first word. A `--`
there ends the options and is no word; behind it, and behind the first word, every argument is
a word. Only the lists of arguments that the command accepts are meant: one that repeats the option,
or that has no word, is refused with a note on usage before anything is read. -/
def Arguments.ofList : List String → Arguments
  | [] => ⟨false, []⟩
  | "-q" :: rest => { ofList rest with quiet := true }
  | "--quiet" :: rest => { ofList rest with quiet := true }
  | "--" :: rest => ⟨false, rest⟩
  | words => ⟨false, words⟩

/-- What a run of the command leaves: the texts of both output streams and the exit
status. -/
structure Output where
  status : Nat := 0
  stdout : String := ""
  stderr : String := ""
  deriving DecidableEq, Repr

/-- The constants of the command. -/
def constants : Constants := fun name =>
  if name = "Pi" ∨ name = "π" then some (Float.ofBits 0x400921FB54442D18)
  else if name = "E" then some (Float.ofBits 0x4005BF0A8B145769)
  else if name = "Inf" then some (Float.ofBits 0x7FF0000000000000)
  else none

/-- A run of the command on its arguments. -/
def run (arguments : List String) : Output :=
  let arguments := Arguments.ofList arguments
  match parseText (" ".intercalate arguments.words) with
  | .error e => { status := 1, stderr := "failed to parse: " ++ e.message ++ "\n" }
  | .ok e =>
    match e.value constants with
    | .error error => { status := 1, stderr := "failed to interpret: " ++ error.message ++ "\n" }
    | .ok value =>
      let text := resultText value
      { stdout := (if arguments.quiet then text else e.render ++ " = " ++ text) ++ "\n" }

end Abacus.Command
