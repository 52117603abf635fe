import SlopeField.Equation.Factors
import SlopeField.Expr.Eval

/-!
# Families of equations

The right-hand side of `dy/dx = f(x, y)` is sorted into the families that can
be solved. The tests look at the tree as it is: what would first need
expansion, factoring or cancellation is not recognised.
-/

namespace SlopeField

variable {α : Type}

inductive Family (α : Type) where
  /-- The equation `dy/dx = f(x)`. -/
  | direct (f : Expr α)
  /-- The equation `dy/dx = xPart * yPart`, with `yReciprocal` for `1 / yPart`. -/
  | separable (xPart yPart yReciprocal : Expr α)
  /-- The equation `dy/dx = a * y + b`, with `a` and `b` free of `y`. -/
  | linear (a b : Expr α)
  | unsupported
  deriving Repr

def Family.name : Family α → String
  | .direct .. => "direct"
  | .separable .. => "separable"
  | .linear .. => "linear"
  | .unsupported => "unsupported"

inductive NotSeparable (α : Type) where
  /-- A factor depends on both variables. -/
  | mixed (factor : Expr α)
  /-- No factor depends on `y`. -/
  | constant
  /-- The part in `y` simplifies to one without `y`. -/
  | degenerate (yPart : Expr α)
  deriving Repr

inductive NotLinear (α : Type) where
  /-- A term with `y` is not a coefficient times `y`. -/
  | term (t : Expr α)
  /-- No term has `y`. -/
  | constant
  deriving Repr

def Expr.mentionsBoth (e : Expr α) : Bool := e.mentions independent && e.mentions dependent

namespace Family

variable [Scalar α]

/-- A factor `u^p` with a numeric exponent as `u^-p`. -/
def reciprocalPower? : Expr α → Option (Expr α)
  | .bin .pow base exponent => exponent.numericValue.map fun p => .pow base (.const (-p))
  | _ => none

/-- The reciprocal of a fraction. A power in the numerator stays there with
its exponent negated. -/
def reciprocal (numerator denominator : List (Expr α)) : Expr α :=
  let powers := numerator.filterMap reciprocalPower?
  let others := numerator.filter fun f => (reciprocalPower? f).isNone
  (Expr.div (.product (denominator ++ powers)) (.product others)).simplify

def separate (rhs : Expr α) : Except (NotSeparable α) (Family α) :=
  let factors := ProductFactors.of rhs
  let withY := List.filter (Expr.mentions (α := α) dependent)
  let withoutY := List.filter fun e : Expr α => !e.mentions dependent
  match (factors.numerator ++ factors.denominator).find? Expr.mentionsBoth with
  | some factor => .error (.mixed factor)
  | none =>
    let yNum := withY factors.numerator
    let yDen := withY factors.denominator
    if yNum.isEmpty && yDen.isEmpty then .error .constant
    else
      let xFraction : Expr α :=
        .div (.product (withoutY factors.numerator)) (.product (withoutY factors.denominator))
      let xPart := (xFraction.signed factors.negative).simplify
      let yPart := (Expr.div (.product yNum) (.product yDen)).simplify
      if yPart.mentions dependent then .ok (.separable xPart yPart (reciprocal yNum yDen))
      else .error (.degenerate yPart)

/-- The coefficient of a term that has `y` exactly once, as a bare factor of
its numerator. -/
def coefficient? (term : Expr α) : Option (Expr α) :=
  let factors := ProductFactors.of term
  if factors.denominator.any (·.mentions dependent) then none
  else match factors.numerator.filter (·.mentions dependent) with
    | [.var _] =>
      let rest := factors.numerator.filter fun f => !f.mentions dependent
      let fraction : Expr α := .div (.product rest) (.product factors.denominator)
      some (fraction.signed factors.negative).simplify
    | _ => none

def collect (rhs : Expr α) : Except (NotLinear α) (Family α) :=
  let terms := signedTerms rhs
  let withY := terms.filter fun (_, t) => t.mentions dependent
  let withoutY := terms.filter fun (_, t) => !t.mentions dependent
  match withY.find? fun (_, t) => (coefficient? t).isNone with
  | some (_, t) => .error (.term t)
  | none =>
    if withY.isEmpty then .error .constant
    else
      let coefficients := withY.filterMap fun (negative, t) =>
        (coefficient? t).map (Expr.signed negative)
      let free := withoutY.map fun (negative, t) => t.signed negative
      .ok (.linear (Expr.sum coefficients).simplify (Expr.sum free).simplify)

/-- The family of a right-hand side, the first of direct, separable and linear
that it belongs to. -/
def classify (rhs : Expr α) : Family α :=
  if !rhs.mentions dependent then .direct rhs
  else match separate rhs with
    | .ok family => family
    | .error _ => match collect rhs with
      | .ok family => family
      | .error _ => .unsupported

end Family

end SlopeField
