import RegexTree.CommandLine.Run

/-! # The program
Prints the tree of a regular expression that is given as an argument or on the standard input. The
standard input is read only where the pattern comes from there. -/

namespace RegexTree

/-- The standard input, if the arguments ask for it by `Source.stdin`. -/
def CommandLine.readStdin (arguments : List String) : IO ByteArray := do
  match Options.ofArgs arguments with
  | .ok ⟨_, _, false, .stdin⟩ => (← IO.getStdin).readBinToEnd
  | _ => return .empty

/-- Print the `Outcome` of a run, and exit as it says. -/
def Outcome.print (outcome : Outcome) : IO UInt32 := do
  IO.print outcome.stdout
  (← IO.getStdout).flush
  IO.eprint outcome.stderr
  return outcome.code.toUInt32

end RegexTree

/-- Run the program with the given arguments. -/
def main (arguments : List String) : IO UInt32 := do
  let stdin ← RegexTree.CommandLine.readStdin arguments
  (RegexTree.CommandLine.run arguments stdin).print
