/-!
# Scalars

Trees, antiderivatives and sampled curves are written over a type of scalars,
so that the same rules can be run on floating-point numbers and reasoned about
over exact ones. `Arithmetic` is what the sampler needs, `Scalar` what the
trees need, `Numeral` what reading and writing need.

No law is assumed here: a rule that needs one states it.
-/

namespace SlopeField

/-- The four operations, with a test that tells a value from an overflowed or
undefined result. -/
class Arithmetic (α : Type) extends Add α, Sub α, Mul α, Div α, Neg α where
  ofNat : Nat → α
  isFinite : α → Bool

/-- Arithmetic with the elementary functions and the comparisons that decide
which identity applies. `negligible` holds within the tolerance of zero
and `substantial` outside it; an undefined value is neither. -/
class Scalar (α : Type) extends Arithmetic α where
  undefined : α
  isZero : α → Bool
  isNegative : α → Bool
  negligible : α → Bool
  substantial : α → Bool
  abs : α → α
  sin : α → α
  cos : α → α
  tan : α → α
  exp : α → α
  ln : α → α
  sqrt : α → α
  pow : α → α → α

class Numeral (α : Type) where
  read? : String → Option α
  text : α → String
  pi : α
  e : α

variable {α : Type}

namespace Arithmetic

def finiteOrZero [Arithmetic α] (v : α) : α :=
  if isFinite v then v else ofNat 0

end Arithmetic

namespace Scalar

def finiteOrUndefined [Scalar α] (v : α) : α :=
  if Arithmetic.isFinite v then v else undefined

end Scalar

end SlopeField
