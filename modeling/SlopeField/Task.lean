import SlopeField.Document.Basic
import SlopeField.Equation.Solve
import SlopeField.Journal.Trail
import SlopeField.Workspace

/-!
# Tasks

A task is one run: an equation, the point its curve goes through, how far and
how finely the curve is sampled, how much of the journal is shown, and the
file the points go to. It is described by a document, of which only the
equation is required.
-/

namespace SlopeField

structure Task where
  equation : String
  x0 : Float := 0.0
  y0 : Float := 1.0
  span : Float := 4.0
  steps : Nat := defaultSteps
  loglevel : Option String := none
  csv : Option String := none

structure Setting where
  title : String
  key : String
  deriving BEq, DecidableEq, Repr

namespace Setting

def equation : Setting := ⟨"equation", "text"⟩
def x0 : Setting := ⟨"initial", "x0"⟩
def y0 : Setting := ⟨"initial", "y0"⟩
def span : Setting := ⟨"sampler", "span"⟩
def steps : Setting := ⟨"sampler", "steps"⟩
def loglevel : Setting := ⟨"output", "loglevel"⟩
def csv : Setting := ⟨"output", "csv"⟩

def text (s : Setting) : String := s.title ++ "." ++ s.key

end Setting

inductive TaskError where
  | document (cause : DocumentError)
  | missingEquation
  | notSingle (setting : Setting)
  | notANumber (setting : Setting) (got : Value)
  | badSteps (got : Value)
  | level (cause : LevelError)
  | cannotRead (file : String) (cause : FileError)
  | cannotWrite (file : String) (cause : FileError)

def TaskError.message : TaskError → String
  | document cause => cause.message
  | missingEquation => Setting.equation.text ++ " is required"
  | notSingle setting => setting.text ++ " expects a single value"
  | notANumber setting got => setting.text ++ " must be a number, got '" ++ got.display ++ "'"
  | badSteps got =>
    Setting.steps.text ++ " must be an integer from 1 to " ++ toString maxSteps ++ ", got '" ++
      got.display ++ "'"
  | level cause => cause.message
  | cannotRead file cause => "cannot read task file " ++ file ++ ": " ++ cause.message
  | cannotWrite file cause => "cannot write " ++ file ++ ": " ++ cause.message

/-- What a run found out. There is a curve unless the equation was refused. -/
structure TaskReport where
  record : SolveRecord Float
  trajectory : Option (Trajectory Float)

-- Points are written under a heading, one line for each, with a comma or a tab
-- between the two numbers.
namespace Table

def text (separator : String) (points : List (Point Float)) : String :=
  let row (p : Point Float) : String :=
    Binary64.text p.x ++ separator ++ Binary64.text p.y ++ "\n"
  points.foldl (fun out p => out ++ row p) ("x" ++ separator ++ "y\n")

def commaSeparated : List (Point Float) → String := text ","

def tabSeparated : List (Point Float) → String := text "\t"

end Table

namespace Task

def template : Template :=
  [("equation", ["text"]), ("initial", ["x0", "y0"]), ("sampler", ["span", "steps"]),
    ("output", ["loglevel", "csv"])]

def single (d : Document) (s : Setting) : Except TaskError (Option Value) :=
  match d.get? s.title s.key with
  | some [v] => .ok (some v)
  | some [] => .ok none
  | some _ => .error (.notSingle s)
  | none => .ok none

def text? (d : Document) (s : Setting) : Except TaskError (Option String) := do
  return (← single d s).map Value.display

def floatOr (d : Document) (s : Setting) (default : Float) : Except TaskError Float := do
  match ← single d s with
  | none => return default
  | some v => match v.asFloat? with
    | some n => return n
    | none => .error (.notANumber s v)

def readSteps (d : Document) : Except TaskError Nat := do
  match ← single d .steps with
  | none => return defaultSteps
  | some v => match v.asInteger? with
    | some n => if 0 < n ∧ n ≤ maxSteps then return n.toNat else .error (.badSteps v)
    | none => .error (.badSteps v)

def verbosity (t : Task) : Except TaskError Verbosity :=
  (Verbosity.ofName t.loglevel).mapError TaskError.level

/-- The task of a document. Of several faults the first in this order is
reported. -/
def ofDocument (d : Document) : Except TaskError Task := do
  match ← text? d .equation with
  | none => .error .missingEquation
  | some equation =>
    let defaults : Task := { equation }
    let steps ← readSteps d
    let loglevel ← text? d .loglevel
    let _ ← { defaults with loglevel }.verbosity
    let x0 ← floatOr d .x0 defaults.x0
    let y0 ← floatOr d .y0 defaults.y0
    let span ← floatOr d .span defaults.span
    let csv ← text? d .csv
    return { equation, x0, y0, span, steps, loglevel, csv }

def parse (text : String) : Except TaskError Task := do
  ofDocument (← (Document.parse text template).mapError TaskError.document)

def ofFile (w : Workspace) (file : String) : Except TaskError Task :=
  match w.read? file with
  | some text => parse text
  | none => .error (.cannotRead file .notFound)

def start (t : Task) : Point Float := ⟨t.x0, t.y0⟩

/-- Solves the equation and samples its curve, also where it has no closed
form. -/
def report (t : Task) : TaskReport :=
  let record := solve t.equation
  let trajectory := match record.status, record.rhs with
    | .error, _ => none
    | _, some rhs => some (sampleTrajectory rhs.slope t.start t.span t.steps)
    | _, none => none
  { record, trajectory }

/-- The file that a run writes: its name and the points for it. -/
def output? (t : Task) (r : TaskReport) : Option (String × List (Point Float)) := do
  return (← t.csv, (← r.trajectory).points)

def save (t : Task) (r : TaskReport) (w : Workspace) : Except TaskError Workspace :=
  match t.output? r with
  | none => .ok w
  | some (file, points) =>
    (w.write file (Table.commaSeparated points)).mapError (TaskError.cannotWrite file)

def run (t : Task) (w : Workspace) : Except TaskError (TaskReport × Workspace) := do
  let _ ← t.verbosity
  let r := t.report
  return (r, ← t.save r w)

end Task

namespace Trail

def opening (v : Verbosity) : Record :=
  .info ("logging started with loglevel: " ++ v.name)

def saved (file : String) (points : List (Point Float)) : List Record :=
  [.info (toString points.length ++ " points saved to " ++ file)]

def report (t : Task) (r : TaskReport) : List Record :=
  solve Float t.equation ++ match r.trajectory with
    | some curve => sample t.start t.span t.steps curve
    | none => []

def output (t : Task) (r : TaskReport) : List Record :=
  match t.output? r with
  | some (file, points) =>
    saved file points ++ [.info ("trajectory written to " ++ file)]
  | none => []

def task (t : Task) (r : TaskReport) (written : Bool) : List Record :=
  report t r ++ if written then output t r else []

def shown (t : Task) (records : List Record) : List Record :=
  match t.verbosity with
  | .ok verbosity => verbosity.shown records
  | .error _ => []

end Trail

end SlopeField
