import SurfaceFeed.CommandLine.Run

/-!
# The program

Reads the files that a command names and the standard input, and prints the
report of the command.
-/

namespace SurfaceFeed
namespace Program

open CommandLine

def usageText : String :=
  "Usage: a2ui [--config PATH] [-v] <parse FILE | render FILE [--json] | " ++
    "stream [FILE] [--chunk-size N] [--strict] [--render]>"

def versionText : String :=
  "a2ui 0.1.0"

/-- What the system says of a path that it could not read. -/
def faultOf : IO.Error -> Except PathError Entry
  | .noFileOrDirectory _ _ _ => .error .missing
  | .inappropriateType _ code _ => if code = 21 then .ok .directory else .error .notDirectory
  | .invalidArgument _ _ _ => .error .nameTooLong
  | _ => .error .denied

def readEntry (path : String) : IO (Except PathError Entry) := do
  try
    let content ← IO.FS.readBinFile path
    return .ok (.file content.toList)
  catch e =>
    return faultOf e

def inputOf : Command -> String
  | .parse input | .render input _ | .stream input _ _ _ => input

def readEnvironment (invocation : Invocation) : IO Environment := do
  let input := inputOf invocation.command
  let stdin ← IO.getStdin
  let content ← if input = standardInput then stdin.readBinToEnd else pure .empty
  let config ← readEntry invocation.config
  let entry ← readEntry input
  return {
    entry := fun name => if name = invocation.config then config else entry
    standardInput := content.toList }

def printReport (report : Report) : IO UInt32 := do
  IO.print report.printed
  match report.failure with
  | [] => return 0
  | failure :: causes =>
      IO.eprintln ("Error: " ++ failure)
      for cause in causes do
        IO.eprintln ("Caused by: " ++ cause)
      return 1

def run (arguments : List String) : IO UInt32 := do
  match Invocation.ofArguments arguments with
  | .error .help =>
      IO.println usageText
      return 0
  | .error .version =>
      IO.println versionText
      return 0
  | .error .mistake =>
      IO.eprintln usageText
      return 2
  | .ok invocation =>
      let env ← readEnvironment invocation
      printReport (invocation.run env)

end Program
end SurfaceFeed

def main (arguments : List String) : IO UInt32 :=
  SurfaceFeed.Program.run arguments
