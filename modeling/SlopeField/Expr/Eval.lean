import SlopeField.Expr.Basic

/-!
# Values of expressions

Two evaluators. `eval` counts every intermediate result that is not finite as
undefined; `compile` gives the plain function of `x` and `y`, and `slope` looks
only at its final value. Variables other than `x` and `y` are undefined.
-/

namespace SlopeField

variable {α : Type} [Scalar α]

@[specialize]
def Fn.apply (f : Fn) (v : α) : α :=
  match f with
  | .sin => Scalar.sin v
  | .cos => Scalar.cos v
  | .tan => Scalar.tan v
  | .cot => Scalar.cos v / Scalar.sin v
  | .sec => Arithmetic.ofNat 1 / Scalar.cos v
  | .csc => Arithmetic.ofNat 1 / Scalar.sin v
  | .exp => Scalar.exp v
  | .ln => Scalar.ln v
  | .sqrt => Scalar.sqrt v
  | .abs => Scalar.abs v

@[specialize]
def BinOp.apply (op : BinOp) (a b : α) : α :=
  match op with
  | .add => a + b
  | .sub => a - b
  | .mul => a * b
  | .div => a / b
  | .pow => Scalar.pow a b

namespace Expr

@[specialize]
def lookup (name : String) (x y : α) : α :=
  if name == independent then x
  else if name == dependent then y
  else Scalar.undefined

@[specialize]
def eval (x y : α) : Expr α → α
  | .var name => Scalar.finiteOrUndefined (lookup name x y)
  | .const c => Scalar.finiteOrUndefined c
  | .neg e => Scalar.finiteOrUndefined (-e.eval x y)
  | .func f e => Scalar.finiteOrUndefined (f.apply (e.eval x y))
  | .bin op l r => Scalar.finiteOrUndefined (op.apply (l.eval x y) (r.eval x y))

@[specialize]
def compile : Expr α → α → α → α
  | .var name => lookup name
  | .const c => fun _ _ => c
  | .neg e => fun x y => -e.compile x y
  | .func f e => fun x y => f.apply (e.compile x y)
  | .bin op l r => fun x y => op.apply (l.compile x y) (r.compile x y)

/-- The right-hand side of `dy/dx = e` as a function, undefined wherever its
value is not finite. -/
def slope (e : Expr α) (x y : α) : α :=
  Scalar.finiteOrUndefined (e.compile x y)

def numericValue (e : Expr α) : Option α :=
  if e.isClosed then
    let v := e.eval Scalar.undefined Scalar.undefined
    if Arithmetic.isFinite v then some v else none
  else none

/-- The outermost part without variables that has no finite value, the
leftmost of several. -/
def undefinedConstant (e : Expr α) : Option (Expr α) :=
  if e.isClosed then
    if e.numericValue.isSome then none else some e
  else match e with
    | .var _ => none
    | .const _ => none
    | .neg e => e.undefinedConstant
    | .func _ e => e.undefinedConstant
    | .bin _ l r => l.undefinedConstant.orElse fun _ => r.undefinedConstant

end Expr

end SlopeField
