import SlopeField.Expr.Simplify

/-!
# Factors and terms

A tree of products, quotients and negations is a signed fraction of factors; a
tree of sums, differences and negations is a list of signed terms. Both keep
the order in which the parts are written.
-/

namespace SlopeField

variable {α : Type}

structure ProductFactors (α : Type) where
  negative : Bool := false
  numerator : List (Expr α) := []
  denominator : List (Expr α) := []
  deriving Repr

namespace ProductFactors

def mul (p q : ProductFactors α) : ProductFactors α where
  negative := p.negative != q.negative
  numerator := p.numerator ++ q.numerator
  denominator := p.denominator ++ q.denominator

def inverse (p : ProductFactors α) : ProductFactors α :=
  { p with numerator := p.denominator, denominator := p.numerator }

def neg (p : ProductFactors α) : ProductFactors α :=
  { p with negative := !p.negative }

/-- The factors of a tree, none of which is a product, a quotient or a
negation. -/
def of : Expr α → ProductFactors α
  | .bin .mul l r => (of l).mul (of r)
  | .bin .div l r => (of l).mul (of r).inverse
  | .neg e => (of e).neg
  | e => { numerator := [e] }

end ProductFactors

/-- The terms of a tree, none of which is a sum, a difference or a negation.
A term is marked if it is subtracted. -/
def signedTerms : Expr α → List (Bool × Expr α)
  | .bin .add l r => signedTerms l ++ signedTerms r
  | .bin .sub l r => signedTerms l ++ (signedTerms r).map fun (negative, t) => (!negative, t)
  | .neg e => (signedTerms e).map fun (negative, t) => (!negative, t)
  | e => [(false, e)]

namespace Expr

def signed (negative : Bool) (e : Expr α) : Expr α := if negative then .neg e else e

variable [Arithmetic α]

def product : List (Expr α) → Expr α
  | [] => .const (Arithmetic.ofNat 1)
  | e :: es => es.foldl .mul e

def sum : List (Expr α) → Expr α
  | [] => .const (Arithmetic.ofNat 0)
  | e :: es => es.foldl .add e

end Expr

end SlopeField
