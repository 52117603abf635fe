import SlopeField.Gallery

/-!
# Command line

The arguments are an equation or the name of a task document; without any, the
first example runs. The journal comes first, then the equation, its
derivation and its solution, and how many points were sampled.
-/

namespace SlopeField.CommandLine

def input (args : List String) : String := " ".intercalate args

/-- The task that an input stands for, given the text of the file of that name
if there is one. -/
def task (input : String) (file : Option String) : Except TaskError Task :=
  match file with
  | some text => Task.parse text
  | none => .ok { equation := input }

def summary (r : TaskReport) : String :=
  let equation := match r.record.normalizedEquation with
    | some text => text ++ "\n"
    | none => ""
  let ending := match r.record.finalText, r.record.message with
    | some text, _ => text ++ "\n"
    | none, some message => r.record.status.name ++ ": " ++ message ++ "\n"
    | none, none => ""
  let sampled := match r.trajectory with
    | some t => "sampled " ++ toString t.points.length ++ " points\n"
    | none => ""
  equation ++ Outcome.steps r.record.steps ++ ending ++ sampled

def refused (e : TaskError) (w : Workspace) : Outcome :=
  { exit := 2, stderr := e.message ++ "\n", workspace := w }

def concluded (t : Task) (r : TaskReport) (w : Workspace) :
    Except TaskError Workspace → Outcome
  | .ok workspace =>
    { stdout := Outcome.journal t (Trail.task t r true) ++ summary r, workspace }
  | .error e =>
    { exit := 2
      stdout := Outcome.journal t (Trail.task t r false)
      stderr := e.message ++ "\n"
      workspace := w }

def respond (args : List String) (w : Workspace) : Outcome :=
  if args.isEmpty then Gallery.run 0
  else match task (input args) (w.read? (input args)) with
    | .error e => refused e w
    | .ok t =>
      let r := t.report
      concluded t r w (t.save r w)

end SlopeField.CommandLine
