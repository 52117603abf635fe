import SlopeField.CommandLine

/-!
# The program

Reads the file that the arguments name, if there is one, writes the file that
the task asks for, and prints what `CommandLine` says.
-/

namespace SlopeField.CommandLine

def readFile? (name : String) : IO (Option String) := do
  try return some (← IO.FS.readFile name) catch _ => return none

def writeOutput (t : Task) (r : TaskReport) : IO (Except TaskError Workspace) := do
  match t.output? r with
  | none => return .ok {}
  | some (file, points) =>
    try
      IO.FS.writeFile file (Table.commaSeparated points)
      return .ok {}
    catch _ => return .error (.cannotWrite file .notFound)

def perform (args : List String) : IO Outcome := do
  if args.isEmpty then return respond args {}
  match task (input args) (← readFile? (input args)) with
  | .error e => return refused e {}
  | .ok t =>
    let r := t.report
    return concluded t r {} (← writeOutput t r)

end SlopeField.CommandLine

def main (args : List String) : IO UInt32 := do
  let outcome ← SlopeField.CommandLine.perform args
  IO.print outcome.stdout
  IO.eprint outcome.stderr
  return outcome.exit.toUInt32
