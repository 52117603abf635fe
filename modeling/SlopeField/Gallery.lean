import SlopeField.Outcome

/-!
# Examples

Worked equations and runs that need no input: one equation of every family and
the ways to fail, the expressions on their own, a curve without a closed form,
and a run described by a document.
-/

namespace SlopeField

namespace Gallery

def printSolution (equation : String) : String :=
  let r : SolveRecord Float := solve equation
  let family := match r.family with
    | some f => "classification: " ++ f.name ++ "\n"
    | none => ""
  let ending := match r.status with
    | .ok =>
      "solution (" ++ (r.form.map SolutionForm.name).getD "" ++ "): " ++ r.finalText.getD ""
    | _ => r.status.name ++ ": " ++ r.message.getD ""
  equation ++ "\n" ++ family ++ Outcome.steps r.steps ++ ending ++ "\n\n"

def equations : List String :=
  ["dy/dx = 2*x", "dy/dx = 3*cos(2*x) - exp(-x)", "dy/dx = x*y", "dy/dx = x/y",
    "dy/dx = x*y + y", "dy/dx = x + y", "dy/dx = y^2 + x", "dy/dx = x*exp(x)", "dy/dx = x +"]

def integrands : List String := ["1/(3*x - 1)", "sin(2*x + 1)", "x^-2", "x*exp(x)"]

def integralLine (term : String) : String :=
  match Expr.parse (α := Float) term with
  | .error e => e.message ++ "\n"
  | .ok e => match e.integrate independent with
    | .ok integral => "∫(" ++ term ++ ") dx = " ++ integral.render ++ "\n"
    | .error failure => failure.message ++ "\n"

def expressions : String :=
  match Expr.parse (α := Float) "2*x*exp(x^2) + 1/(3*x - 1)" with
  | .error e => e.message ++ "\n"
  | .ok f =>
    "f = " ++ f.render ++ ", simplified: " ++ f.simplify.render ++ "\n" ++
      String.join (integrands.map integralLine) ++
      "f(1, 0) = " ++ Binary64.text (f.compile 1.0 0.0) ++ "\n"

def quoteOption : Option String → String
  | some s => "Some(" ++ Text.quote s ++ ")"
  | none => "None"

/-- The curve of an equation that has no closed form, saved as a table. -/
def curve : Outcome :=
  let r : SolveRecord Float := solve "dy/dx = y^2 - x"
  match r.rhs with
  | none => { stdout := quoteOption r.message ++ "\n" }
  | some rhs =>
    let points := (sampleTrajectory rhs.slope ⟨0.0, 0.5⟩ 2.0 defaultSteps).points
    let x (p : Option (Point Float)) : String := Binary64.text ((p.map (·.x)).getD (0.0 / 0.0))
    let summary := toString points.length ++ " points, x from " ++ x points.head? ++ " to " ++
      x points.getLast? ++ "\n"
    match ({} : Workspace).write "riccati_trajectory.txt" (Table.tabSeparated points) with
    | .ok workspace => { stdout := summary, workspace }
    | .error e => { stdout := summary ++ "cannot save trajectory: " ++ e.message ++ "\n" }

def document : String :=
  "
            equation
              text: dy/dx = -2*x*y
            initial
              x0: 0.0
              y0: 1.0
            sampler
              span: 3.0
              steps: 120
            output
              loglevel: info
              csv: gaussian.csv
            "

def documentRun : Outcome :=
  match Task.parse document with
  | .error e => { stdout := "task failed: " ++ e.message ++ "\n" }
  | .ok t =>
    let r := t.report
    match t.save r {} with
    | .error e =>
      let log := Outcome.journal t (Trail.task t r false)
      { stdout := log ++ "task failed: " ++ e.message ++ "\n" }
    | .ok workspace =>
      let log := Outcome.journal t (Trail.task t r true)
      let final := quoteOption r.record.finalText
      { stdout := log ++ Outcome.steps r.record.steps ++ final ++ "\n", workspace }

def run : Nat → Outcome
  | 0 => { stdout := String.join (equations.map printSolution) }
  | 1 => { stdout := expressions }
  | 2 => curve
  | 3 => documentRun
  | n => { stdout := "no such example: " ++ toString n ++ "\n" }

end Gallery

end SlopeField
