import SlopeField.Equation.Solve
import SlopeField.Journal.Basic
import SlopeField.Trajectory

/-!
# What each operation records

For every operation the records it leaves, in order, under the name of the
operation. The operations themselves are plain functions; their trail is read off
their results.
-/

namespace SlopeField.Trail

variable {α : Type} [Scalar α] [Numeral α]

def parse (α : Type) [Scalar α] [Numeral α] (text : String) : List Record :=
  match Expr.read (α := α) text with
  | .ok e => [.debug .expressions ("parsed '" ++ Text.trim text ++ "' into " ++ e.render)]
  | .error _ => []

def integrate (e : Expr α) (v : String) : List Record :=
  match e.integrate v with
  | .ok _ => []
  | .error failure => [.debug .integrals ("integration failed: " ++ failure.message)]

def notSeparable : NotSeparable α → List Record
  | .mixed factor =>
    [.debug .families
      ("not separable: factor " ++ factor.render ++ " depends on both variables")]
  | .constant => []
  | .degenerate yPart =>
    [.debug .families ("not separable: y part " ++ yPart.render ++ " is degenerate")]

def notLinear : NotLinear α → List Record
  | .term t => [.debug .families ("not linear: term " ++ t.render ++ " is not coefficient * y")]
  | .constant => []

def classify (rhs : Expr α) : List Record :=
  let rejections :=
    if !rhs.mentions dependent then []
    else match Family.separate rhs with
      | .ok _ => []
      | .error cause => notSeparable cause ++ match Family.collect rhs with
        | .ok _ => []
        | .error cause => notLinear cause
  let verdict := (Family.classify rhs).name
  rejections ++
    [.info ("dy/dx = " ++ rhs.render ++ " classified as " ++ verdict)]

def announce (kind : String) : Except (SolveError α) (Derivation α) → List Record
  | .ok d => [.info (kind ++ ": " ++ d.finalText)]
  | .error _ => []

def direct (rhs : Expr α) : List Record :=
  integrate rhs independent ++ announce "direct solution" (Derivation.direct rhs)

def separable (xPart yPart yReciprocal : Expr α) : List Record :=
  let integrals := match yReciprocal.integrate dependent with
    | .ok _ => integrate xPart independent
    | .error _ => integrate yReciprocal dependent
  let derivation := Derivation.separable xPart yPart yReciprocal
  let kind := match derivation with
    | .ok { form := .implicit, .. } => "separable implicit solution"
    | _ => "separable solution"
  integrals ++ announce kind derivation

def linear (a b : Expr α) : List Record :=
  match Derivation.integratingFactor a b with
  | .error _ => integrate (Expr.neg a).simplify independent
  | .ok { weighted, .. } => match weighted.integrate independent with
    | .ok _ => announce "linear solution" (Derivation.linear a b)
    | .error failure =>
      integrate weighted independent ++
        [.warn (failure.message ++ "; leaving the integral unevaluated")]

def ofFamily : Family α → List Record
  | .direct f => direct f
  | .separable xPart yPart yReciprocal => separable xPart yPart yReciprocal
  | .linear a b => linear a b
  | .unsupported => []

def parseEquation (α : Type) [Scalar α] [Numeral α] (text : String) : List Record :=
  match splitEquation? text with
  | some (lhs, rhs) => if isDerivative lhs then parse α (String.ofList rhs) else []
  | none => []

def solveEquation (α : Type) [Scalar α] [Numeral α] (text : String) : List Record :=
  parseEquation α text ++ match SlopeField.parseEquation (α := α) text with
    | .error _ => []
    | .ok rhs =>
      if rhs.undefinedConstant.isSome then []
      else classify rhs ++ ofFamily (Family.classify rhs)

def solve (α : Type) [Scalar α] [Numeral α] (text : String) : List Record :=
  let outcome := match SlopeField.solveEquation (α := α) text with
    | .ok _ => []
    | .error e => [.warn e.message]
  [.info ("solving " ++ Text.trim text)] ++ solveEquation α text ++ outcome

/-- The record of a run that was to take `n` steps but stopped after `taken`,
at a point with the given `x`. -/
def stopped (n taken : Nat) (x : α) : List Record :=
  if taken < n then
    [.debug .curves
      ("trajectory stopped after " ++ toString taken ++ " steps at x = " ++ Numeral.text x)]
  else []

def run (n : Nat) (r : Run α) : List Record := stopped n r.points.length r.final.x

/-- The records of `sampleTrajectory`. A direction stops one step beyond its
last point. -/
def sample (start : Point α) (span : α) (steps : Nat) (t : Trajectory α) : List Record :=
  if steps == 0 || !Arithmetic.isFinite start.y then []
  else
    let h := span / Arithmetic.ofNat steps
    let right := (t.forward.getLast?.getD start).x
    let left := (t.backward.head?.getD start).x
    let forward := t.forward.length
    let backward := t.backward.length
    stopped steps (forward - 1) (right + h) ++ stopped steps backward (left + -h) ++
      [.info
        ("trajectory through (" ++ Numeral.text start.x ++ ", " ++ Numeral.text start.y ++ "): " ++
          toString forward ++ " points forward, " ++ toString backward ++ " backward")]

end SlopeField.Trail
