import SlopeField.Expr.Eval
import SlopeField.Expr.Simplify

/-!
# Affine forms

`linearForm? e v` writes `e` as `slope * v + intercept` by walking through
sums, negations and products or quotients by numbers. It gives up where the
variable is used in any other way.
-/

namespace SlopeField

/-- The form `slope * v + intercept`. An expression without the variable has
the slope zero. -/
structure LinearForm (α : Type) where
  slope : α
  intercept : Expr α
  deriving Repr

namespace LinearForm

variable {α : Type} [Scalar α]

/-- Whether the variable really occurs. -/
def isAffine (form : LinearForm α) : Bool := Scalar.substantial form.slope

def neg (form : LinearForm α) : LinearForm α :=
  ⟨-form.slope, (Expr.neg form.intercept).simplify⟩

def add (l r : LinearForm α) : LinearForm α :=
  ⟨l.slope + r.slope, (Expr.add l.intercept r.intercept).simplify⟩

def sub (l r : LinearForm α) : LinearForm α :=
  ⟨l.slope - r.slope, (Expr.sub l.intercept r.intercept).simplify⟩

def scale (c : α) (form : LinearForm α) : LinearForm α :=
  ⟨c * form.slope, (Expr.mul (.const c) form.intercept).simplify⟩

def divide (form : LinearForm α) (c : α) : LinearForm α :=
  ⟨form.slope / c, (Expr.div form.intercept (.const c)).simplify⟩

end LinearForm

namespace Expr

variable {α : Type} [Scalar α]

def linearForm? (e : Expr α) (v : String) : Option (LinearForm α) :=
  if !e.mentions v then some ⟨Arithmetic.ofNat 0, e⟩
  else match e with
    | .var _ => some ⟨Arithmetic.ofNat 1, .const (Arithmetic.ofNat 0)⟩
    | .const _ => none
    | .neg a => do return (← a.linearForm? v).neg
    | .func _ _ => none
    | .bin op l r => match op with
      | .add => do return (← l.linearForm? v).add (← r.linearForm? v)
      | .sub => do return (← l.linearForm? v).sub (← r.linearForm? v)
      | .mul => match l.numericValue with
        | some c => do return (← r.linearForm? v).scale c
        | none => match r.numericValue with
          | some c => do return (← l.linearForm? v).scale c
          | none => none
      | .div => match r.numericValue with
        | some c => if Scalar.substantial c then do return (← l.linearForm? v).divide c else none
        | none => none
      | .pow => none

def affineSlope? (e : Expr α) (v : String) : Option α :=
  (e.linearForm? v).bind fun form => if form.isAffine then some form.slope else none

end Expr

end SlopeField
