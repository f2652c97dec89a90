import Dxl.Command.Run

/-! The command line program. -/

namespace Dxl

/-- How to call the program. -/
def usage : String :=
  "Usage: dxl dump PATH [--ast] [--symbols] [--log LEVEL]\n       dxl check PATH [--log LEVEL]"

/-- The content of a file, if it can be read as text. -/
def readContent (path : String) : IO (Option String) := do
  try
    return some (← IO.FS.readFile path)
  catch _ =>
    return none

/-- Prints a transcript and gives the exit code. -/
def printTranscript (transcript : Transcript) : IO UInt32 := do
  IO.print transcript.printed
  match transcript.ending with
  | .done => return 0
  | .failed message =>
    IO.eprintln ("Error: " ++ message)
    return 1
  | .aborted failure =>
    IO.eprintln failure.message
    return 101

end Dxl

/-- Runs what the arguments ask for. -/
def main (arguments : List String) : IO UInt32 := do
  match Dxl.Invocation.ofArguments arguments with
  | .ok invocation =>
    let content ← Dxl.readContent invocation.path
    Dxl.printTranscript (invocation.run content)
  | .error .help =>
    IO.println Dxl.usage
    return 0
  | .error .usage =>
    IO.eprintln Dxl.usage
    return 1
