import SlopeField.Equation.Family
import SlopeField.Expr.Integral
import SlopeField.ParseError

/-!
# Derivations

Each family has a way of solving it, told step by step: name the structure,
bring it into the standard form, set up the integrals, evaluate them, solve for
`y`.
-/

namespace SlopeField

structure Step where
  title : String
  description : String
  equation : Option String
  deriving BEq, DecidableEq, Repr

def Step.text (s : Step) : String :=
  let heading := s.title ++ ": " ++ s.description
  match s.equation with
  | some equation => heading ++ "\n    " ++ equation
  | none => heading

inductive SolutionForm where
  | explicit
  | implicit
  deriving BEq, DecidableEq, Repr

def SolutionForm.name : SolutionForm → String
  | explicit => "explicit"
  | implicit => "implicit"

/-- A finished derivation. `solution` is the right-hand side of `y(x) = ...`
where the form is explicit. -/
structure Derivation (α : Type) where
  steps : List Step
  finalText : String
  solution : Option (Expr α)
  form : SolutionForm
  deriving Repr

/-- The integral that a derivation cannot do without. -/
inductive Obstacle where
  | rightHandSide
  | coefficient
  deriving BEq, DecidableEq, Repr

def Obstacle.text : Obstacle → String
  | rightHandSide => "right-hand side not integrable by the supported rule set"
  | coefficient => "cannot integrate P(x)"

inductive SolveError (α : Type) where
  | parse (cause : ParseError)
  | integration (cause : IntegrationError α)
  | notIntegrable (what : Obstacle)
  /-- A part without variables has no value. -/
  | undefinedConstant (part : Expr α)

namespace SolveError

variable {α : Type} [Scalar α] [Numeral α]

def message : SolveError α → String
  | parse cause => "syntax error: " ++ cause.message
  | integration cause => "not solvable with current rules: " ++ cause.message
  | notIntegrable what => "not solvable with current rules: " ++ what.text
  | undefinedConstant part => "undefined constant in the right-hand side: " ++ part.render

end SolveError

namespace Derivation

variable {α : Type} [Scalar α] [Numeral α]

def unknown : Expr α := .var dependent

def arbitrary : Expr α := .var integrationConstant

def direct (rhs : Expr α) : Except (SolveError α) (Derivation α) :=
  match rhs.integrate independent with
  | .error _ => .error (.notIntegrable .rightHandSide)
  | .ok integral =>
    let solution := (Expr.add integral arbitrary).simplify
    let finalText := "y(x) = " ++ solution.render
    .ok {
      steps := [
        { title := "Identify the equation type"
          description :=
            "The right-hand side does not depend on y, so y is found by direct integration."
          equation := some ("dy/dx = " ++ rhs.render) },
        { title := "Integrate both sides"
          description := "Integrate the right-hand side with respect to x."
          equation := some ("y = ∫(" ++ rhs.render ++ ") dx") },
        { title := "Evaluate the integral"
          description := "Apply the integration rules term by term."
          equation := some ("∫(" ++ rhs.render ++ ") dx = " ++ integral.render) },
        { title := "General solution"
          description := "Add the constant of integration C."
          equation := some finalText }]
      finalText
      solution := some solution
      form := .explicit }

def isLnAbsY : Expr α → Bool
  | .func .ln (.func .abs (.var name)) => name == dependent
  | _ => false

/-- The equation `dy/dx = xPart * yPart` is divided by `yPart` and integrated
on both sides. It is solved for `y` where the left side is `ln(abs(y))`. -/
def separable (xPart yPart yReciprocal : Expr α) : Except (SolveError α) (Derivation α) := do
  let left ← (yReciprocal.integrate dependent).mapError .integration
  let right ← (xPart.integrate independent).mapError .integration
  let relation := left.render ++ " = " ++ (Expr.add right arbitrary).simplify.render
  let steps : List Step := [
    { title := "Identify the equation type"
      description := "The right-hand side factors into a function of x times a function of y, " ++
        "so the variables separate."
      equation := some ("dy/dx = (" ++ xPart.render ++ ") * (" ++ yPart.render ++ ")") },
    { title := "Separate the variables"
      description := "Divide both sides by the y factor and multiply by dx."
      equation := some ("(" ++ yReciprocal.render ++ ") dy = (" ++ xPart.render ++ ") dx") },
    { title := "Integrate both sides"
      description :=
        "Integrate the left side with respect to y and the right side with respect to x."
      equation := some ("∫(" ++ yReciprocal.render ++ ") dy = ∫(" ++ xPart.render ++ ") dx") },
    { title := "Evaluate the integrals"
      description := "Both antiderivatives are known; collect the constants into C."
      equation := some relation }]
  if isLnAbsY left then
    let solution := (Expr.mul arbitrary (.func .exp right)).simplify
    let finalText := "y(x) = " ++ solution.render
    return {
      steps := steps ++ [
        { title := "Solve for y"
          description :=
            "Exponentiate both sides; the sign and exp(C) are absorbed into the constant C."
          equation := some finalText }]
      finalText
      solution := some solution
      form := .explicit }
  else
    return {
      steps := steps ++ [
        { title := "Implicit solution"
          description := "The relation between x and y is left in implicit form."
          equation := some relation }]
      finalText := relation
      solution := none
      form := .implicit }

/-- The integrating factor of `dy/dx = a * y + b`: the coefficient `-a`, its
integral, the factor itself and its product with `b`. -/
structure IntegratingFactor (α : Type) where
  coefficient : Expr α
  exponent : Expr α
  factor : Expr α
  weighted : Expr α

def integratingFactor (a b : Expr α) : Except (IntegrationError α) (IntegratingFactor α) := do
  let coefficient := (Expr.neg a).simplify
  let exponent ← coefficient.integrate independent
  let factor := (Expr.func .exp exponent).simplify
  return { coefficient, exponent, factor, weighted := (Expr.mul factor b).simplify }

/-- The equation `dy/dx = a * y + b` is multiplied by its integrating factor
and integrated. Where that integral is out of reach it stands unevaluated in
the solution. -/
def linear (a b : Expr α) : Except (SolveError α) (Derivation α) :=
  match integratingFactor a b with
  | .error _ => .error (.notIntegrable .coefficient)
  | .ok { coefficient := p, exponent, factor := mu, weighted } =>
    let steps : List Step := [
      { title := "Identify the equation type"
        description := "Every term is either free of y or a coefficient times y, " ++
          "so the equation is linear in y."
        equation := some ("dy/dx = " ++ (Expr.add (.mul a unknown) b).simplify.render) },
      { title := "Standard form"
        description := "Move the y term to the left side."
        equation := some
          ("dy/dx + " ++ (Expr.mul p unknown).simplify.render ++ " = " ++ b.render) },
      { title := "Read off the coefficients"
        description := "Coefficient of y on the left and the free term on the right."
        equation := some ("P(x) = " ++ p.render ++ ", Q(x) = " ++ b.render) },
      { title := "Integrating factor"
        description := "Multiply the equation by μ(x) = exp(∫P(x) dx)."
        equation := some ("μ(x) = exp(" ++ exponent.render ++ ") = " ++ mu.render) },
      { title := "Exact derivative"
        description := "The left side becomes the derivative of μ(x) * y."
        equation := some ("d/dx (" ++ mu.render ++ " * y) = " ++ weighted.render) }]
    match weighted.integrate independent with
    | .ok integral =>
      let solution := (Expr.div (.add integral arbitrary) mu).simplify
      let finalText := "y(x) = " ++ solution.render
      .ok {
        steps := steps ++ [
          { title := "Integrate both sides"
            description := "Integrate the right side with respect to x."
            equation := some ("∫(" ++ weighted.render ++ ") dx = " ++ integral.render) },
          { title := "Solve for y"
            description := "Divide by the integrating factor."
            equation := some finalText }]
        finalText
        solution := some solution
        form := .explicit }
    | .error _ =>
      let finalText :=
        "y(x) = (1 / " ++ mu.render ++ ") * (∫(" ++ weighted.render ++ ") dx + C)"
      .ok {
        steps := steps ++ [
          { title := "Integrate both sides"
            description := "The integral of μ(x) * Q(x) is beyond the supported rules " ++
              "and is left unevaluated."
            equation := some finalText }]
        finalText
        solution := none
        form := .implicit }

def ofFamily : Family α → Except (SolveError α) (Option (Derivation α))
  | .direct f => do return some (← direct f)
  | .separable xPart yPart yReciprocal => do return some (← separable xPart yPart yReciprocal)
  | .linear a b => do return some (← linear a b)
  | .unsupported => .ok none

end Derivation

end SlopeField
