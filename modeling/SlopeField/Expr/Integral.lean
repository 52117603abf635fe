import SlopeField.Expr.Affine
import SlopeField.Expr.Printer

/-!
# Antiderivatives

A bounded set of rules. Constants come out of products and quotients, sums are
taken term by term, and there are rules for powers of the variable, for a
constant over an affine denominator, and for `exp`, `sin`, `cos` and `tan` of
an affine argument. Products of two factors with the variable, parts and
substitution are not attempted, and no constant of integration is added.
-/

namespace SlopeField

structure IntegrationError (α : Type) where
  integrand : Expr α
  var : String

namespace IntegrationError

variable {α : Type} [Scalar α] [Numeral α]

def message (e : IntegrationError α) : String :=
  "cannot integrate " ++ e.integrand.render ++ " with respect to " ++ e.var

end IntegrationError

namespace Expr

variable {α : Type} [Scalar α]

def lnAbs (e : Expr α) : Expr α := .func .ln (.func .abs e)

/-- A numerator without the variable over a denominator with it. -/
def quotientRule? (l r : Expr α) (v : String) : Option (Expr α) :=
  match r with
  | .var _ => some (.mul l r.lnAbs)
  | _ => (r.affineSlope? v).map fun a => .mul (.div l (.const a)) r.lnAbs

def powerRule? (base exponent : Expr α) (v : String) : Option (Expr α) :=
  match base with
  | .var name =>
    if name == v then
      exponent.numericValue.map fun p =>
        -- The exponent -1 has the logarithm in place of a power.
        let next := p + Arithmetic.ofNat 1
        if Scalar.negligible next then base.lnAbs
        else .div (.pow base (.const next)) (.const next)
    else none
  | _ => none

def functionRule? (f : Fn) (arg : Expr α) (v : String) : Option (Expr α) := do
  let slope := Expr.const (← arg.affineSlope? v)
  match f with
  | .exp => some (.div (.func .exp arg) slope)
  | .sin => some (.div (.neg (.func .cos arg)) slope)
  | .cos => some (.div (.func .sin arg) slope)
  | .tan => some (.div (.neg (lnAbs (.func .cos arg))) slope)
  | _ => none

def antiderivative (e : Expr α) (v : String) : Except (IntegrationError α) (Expr α) :=
  let failure : IntegrationError α := ⟨e, v⟩
  if !e.mentions v then .ok (.mul e (.var v))
  else match e with
    | .var _ =>
      let two : Expr α := .const (Arithmetic.ofNat 2)
      .ok (.div (.pow (.var v) two) two)
    | .const _ => .ok (.mul e (.var v))
    | .neg a => do return .neg (← a.antiderivative v)
    | .func f a => ((functionRule? f a v).map .ok).getD (.error failure)
    | .bin op l r => match op with
      | .add => do return .add (← l.antiderivative v) (← r.antiderivative v)
      | .sub => do return .sub (← l.antiderivative v) (← r.antiderivative v)
      | .mul =>
        if !l.mentions v then do return .mul l (← r.antiderivative v)
        else if !r.mentions v then do return .mul r (← l.antiderivative v)
        else .error failure
      | .div =>
        if !r.mentions v then do return .div (← l.antiderivative v) r
        else if l.mentions v then .error failure
        else ((quotientRule? l r v).map .ok).getD (.error failure)
      | .pow => ((powerRule? l r v).map .ok).getD (.error failure)

def integrate (e : Expr α) (v : String) : Except (IntegrationError α) (Expr α) := do
  return (← e.antiderivative v).simplify

end Expr

end SlopeField
