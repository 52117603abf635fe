import SlopeField.Expr.Basic

/-!
# Simplification

One pass from the leaves up. Each operation has a function that builds it from
operands that are simplified already: constants are folded where the result is
finite, and the identities of zero, one and minus one are applied, where a
constant counts as one of these within the tolerance. Functions are never
evaluated.
-/

namespace SlopeField.Expr

variable {α : Type} [Scalar α]

def fold (value : α) (operation : Expr α) : Expr α :=
  if Arithmetic.isFinite value then .const value else operation

/-- Minus `e`. Negating either zero gives the positive one. -/
def simplifyNeg : Expr α → Expr α
  | .const c => .const (if Scalar.isZero c then Arithmetic.ofNat 0 else -c)
  | .neg e => e
  | e => .neg e

def simplifyAdd : Expr α → Expr α → Expr α
  | .const a, .const b => fold (a + b) (.add (.const a) (.const b))
  | l, r =>
    if r.isZero then l
    else if l.isZero then r
    else .add l r

def simplifySub : Expr α → Expr α → Expr α
  | .const a, .const b => fold (a - b) (.sub (.const a) (.const b))
  | l, r =>
    if r.isZero then l
    else if l.isZero then simplifyNeg r
    else .sub l r

/-- A factor `c` on a quotient by the constant `b` becomes the factor `c / b`
on its numerator, where that is a number and `b` is not near zero. -/
def quotientFactor? (c b : α) : Option α :=
  if Scalar.substantial b && Arithmetic.isFinite (c / b) then some (c / b) else none

def scale (c : α) : Expr α → Expr α
  | .const b => fold (c * b) (.mul (.const c) (.const b))
  | .div num (.const b) =>
    let whole : Expr α := .div num (.const b)
    if (const c).isZero then .const (Arithmetic.ofNat 0)
    else if (const c).isOne then whole
    else if (const c).isMinusOne then simplifyNeg whole
    else match quotientFactor? c b with
      | some d => scale d num
      | none => .mul (.const c) whole
  | e =>
    if (const c).isZero then .const (Arithmetic.ofNat 0)
    else if (const c).isOne then e
    else if (const c).isMinusOne then simplifyNeg e
    else .mul (.const c) e

def scaleRight (e : Expr α) (c : α) : Expr α :=
  if (const c).isZero then .const (Arithmetic.ofNat 0)
  else if (const c).isOne then e
  else if (const c).isMinusOne then simplifyNeg e
  else match e with
    | .div num (.const b) =>
      match quotientFactor? c b with
      | some d => scale d num
      | none => .mul e (.const c)
    | _ => .mul e (.const c)

def simplifyMul : Expr α → Expr α → Expr α
  | .const c, r => scale c r
  | l, .const c => scaleRight l c
  | l, r => .mul l r

def simplifyDiv : Expr α → Expr α → Expr α
  | .const a, .const b => fold (a / b) (.div (.const a) (.const b))
  | l, r =>
    if r.isOne then l
    else if r.isMinusOne then simplifyNeg l
    else if l.isZero then .const (Arithmetic.ofNat 0)
    else .div l r

def simplifyPow : Expr α → Expr α → Expr α
  | .const a, .const b => fold (Scalar.pow a b) (.pow (.const a) (.const b))
  | l, r =>
    if r.isZero then .const (Arithmetic.ofNat 1)
    else if r.isOne then l
    else .pow l r

def simplifyBin : BinOp → Expr α → Expr α → Expr α
  | .add => simplifyAdd
  | .sub => simplifySub
  | .mul => simplifyMul
  | .div => simplifyDiv
  | .pow => simplifyPow

def simplify : Expr α → Expr α
  | .var name => .var name
  | .const c => .const c
  | .neg e => simplifyNeg e.simplify
  | .func f e => .func f e.simplify
  | .bin op l r => simplifyBin op l.simplify r.simplify

end SlopeField.Expr
