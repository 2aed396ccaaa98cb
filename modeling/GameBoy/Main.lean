import GameBoy.Runner.Program

/-!
# The command line

Reads files and the environment, runs the program, and prints what it leaves: the log to standard
output, everything else to standard error.
-/

namespace GameBoy

/-- What the operating system says about a file that cannot be read. -/
def readFailure : IO.Error → String
  | .noFileOrDirectory _ code details | .permissionDenied (some _) code details
  | .inappropriateType (some _) code details => s!"{details} (os error {code})"
  | e => toString e

/-- The bytes of a file, or why they cannot be read. -/
def readFile (path : String) : IO (Except String ByteArray) := do
  try
    return .ok (← IO.FS.readBinFile path)
  catch e =>
    return .error (readFailure e)

/-- The environment variable that sets the filter of the log. -/
def logVariable : String := "RUST_LOG"

end GameBoy

/-- Runs the program on the arguments of the process. -/
def main (arguments : List String) : IO UInt32 := do
  let outcome ← GameBoy.runProgram GameBoy.readFile (← IO.getEnv GameBoy.logVariable) arguments
  for line in outcome.log do
    IO.println line
  match outcome.answer with
  | some text => IO.eprintln text
  | none => pure ()
  return outcome.exitCode.toUInt32
