import Settings.Cli

/-!
# The program

Prints what a run of the command line says, and ends with its code.
-/

set_option autoImplicit false

def main (args : List String) : IO UInt32 := do
  let output := Settings.Cli.run args
  (← IO.getStdout).putStr output.stdout
  (← IO.getStderr).putStr output.stderr
  return output.code.toUInt32
