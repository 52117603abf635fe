import SlopeField.Expr.Basic

/-!
# Printed expressions

Infix text with only the parentheses that binding strength requires. The
operators `+ - * /` stand between spaces, `^` does not. An operand of equal
strength is put in parentheses on the right of `-` and `/` and on both sides
of `^`, so that `(x^2)^3` and `x^(2^3)` stay apart.
-/

namespace SlopeField

namespace BinOp

def spaced : BinOp → String
  | pow => "^"
  | op => " " ++ op.symbol ++ " "

/-- Whether a left operand of equal strength needs parentheses. -/
def strictLeft : BinOp → Bool
  | pow => true
  | _ => false

/-- Whether a right operand of equal strength needs parentheses. -/
def strictRight : BinOp → Bool
  | sub | div | pow => true
  | _ => false

end BinOp

namespace Expr

variable {α : Type} [Scalar α]

/-- Binding strength of a printed tree. A negative constant prints with a
leading minus and binds like a negation. -/
def precedence : Expr α → Nat
  | .var _ => 5
  | .const c => if Scalar.isNegative c then negPrecedence else 5
  | .neg _ => negPrecedence
  | .func _ _ => 5
  | .bin op _ _ => op.precedence

def needsParens (e : Expr α) (parent : Nat) (strict : Bool) : Bool :=
  e.precedence < parent || (strict && e.precedence == parent)

def parens (wrap : Bool) (s : String) : String :=
  if wrap then "(" ++ s ++ ")" else s

/-- The printed form. Either zero prints as `0`. -/
def render [Numeral α] : Expr α → String
  | .var name => name
  | .const c => if Scalar.isZero c then "0" else Numeral.text c
  | .neg e => "-" ++ parens (e.needsParens negPrecedence false) e.render
  | .func f e => f.name ++ parens true e.render
  | .bin op l r =>
    parens (l.needsParens op.precedence op.strictLeft) l.render ++ op.spaced ++
      parens (r.needsParens op.precedence op.strictRight) r.render

end Expr

end SlopeField
