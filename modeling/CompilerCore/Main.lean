import CompilerCore.CommandLine

/-!
# The program
-/

open CompilerCore

def main (args : List String) : IO UInt32 := do
  let report := CommandLine.run args
  IO.print report.output
  IO.eprint report.errors
  return UInt32.ofNat report.exitCode
