import Dataflow.WordCount.Run

/-!
The command line of the word count.
-/

namespace Dataflow

def writeAll (stream : IO.FS.Stream) (bytes : Bytes) : IO Unit := do
  stream.write ⟨bytes.toArray⟩
  stream.flush

end Dataflow

open Dataflow in
def main (arguments : List String) : IO UInt32 := do
  let output := WordCount.run (arguments.map fun argument => argument.toUTF8.toList)
  writeAll (← IO.getStderr) output.stderr
  writeAll (← IO.getStdout) output.stdout
  return output.exitCode
