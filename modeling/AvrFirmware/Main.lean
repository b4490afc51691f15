/-
The command: reads a load file and reports the stack usage of the program
in it.
-/
import AvrFirmware.Command.Outcome

open AvrFirmware

/-- The text of a file. -/
def readText (name : String) : IO (Except Command.ReadFault String) := do
  try
    return Command.textOfBytes (← IO.FS.readBinFile name)
  catch
    | .noFileOrDirectory .. => return .error .notFound
    | e => return .error (.refused (toString e))

/-- Analyzes a file and writes the answer. -/
def analyzeFile (options : Command.Options) : IO UInt32 := do
  let outcome := options.execute (← readText options.file)
  for event in outcome.log do
    if options.shows event then
      IO.eprintln event.text
  match outcome.result with
  | .ok text =>
      IO.print text
      return 0
  | .error failure =>
      IO.eprintln ("error: " ++ failure.message)
      return 1

def main (arguments : List String) : IO UInt32 := do
  match Command.Request.parse arguments with
  | .error fault =>
      IO.eprintln ("error: " ++ fault.message)
      return 2
  | .ok .showHelp =>
      IO.print Command.helpText
      return 0
  | .ok .showVersion =>
      IO.print Command.versionText
      return 0
  | .ok (.analyze options) => analyzeFile options
