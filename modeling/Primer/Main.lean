import Primer.CommandLine

/-!
# The program

Collects what `CommandLine.execute` depends on and carries out what it answers.
The standard input is read only if there is something to run.
-/

namespace Primer.CommandLine

/-- The content of a file, if it can be read. -/
def fileBytes? (path : String) : IO (Option ByteArray) := do
  try
    let bytes ← IO.FS.readBinFile path
    return some bytes
  catch _ => return none

/-- Everything that is left on a stream, after what was taken from it already. -/
partial def remainingBytes (stream : IO.FS.Stream) (taken : ByteArray) : IO ByteArray := do
  let more ← stream.read 65536
  if more.isEmpty then return taken
  remainingBytes stream (taken ++ more)

/-- The script that the arguments ask for and the standard input. -/
def gather (arguments : List String) : IO (Option ByteArray × ByteArray) := do
  let stdin ← IO.getStdin
  match Invocation.ofArguments arguments with
  | .unusable => return (none, .empty)
  | .interactive => return (none, ← remainingBytes stdin .empty)
  | .script path =>
      match ← fileBytes? path with
      | none => return (none, .empty)
      | some bytes => return (some bytes, ← remainingBytes stdin .empty)

end Primer.CommandLine

/-- Runs the program with the given arguments. -/
def main (arguments : List String) : IO UInt32 := do
  let (bytes?, stdin) ← Primer.CommandLine.gather arguments
  let outcome := Primer.CommandLine.execute arguments (fun _ => bytes?) stdin
  let stdout ← IO.getStdout
  stdout.putStr outcome.stdout
  stdout.flush
  let stderr ← IO.getStderr
  stderr.putStr outcome.stderr
  return outcome.status.toUInt32
