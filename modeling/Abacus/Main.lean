import Abacus.Command

/-!
# The program

The command line program: it runs the command on the arguments it was started with.
-/

/-- Runs the command, prints both of its outputs and exits with its status. -/
def main (arguments : List String) : IO UInt32 := do
  let output := Abacus.Command.run arguments
  IO.print output.stdout
  IO.eprint output.stderr
  return UInt32.ofNat output.status
