import SlopeField.Scalar

/-!
# Expression trees

A tree is a variable, a constant, a negation, a named function of one
argument, or one of the five binary operations. Right-hand sides of equations
use the variables `x` and `y`; solutions add the constant of integration.
-/

namespace SlopeField

inductive Fn where
  | sin | cos | tan | cot | sec | csc | exp | ln | sqrt | abs
  deriving BEq, DecidableEq, Repr

namespace Fn

def all : List Fn := [sin, cos, tan, cot, sec, csc, exp, ln, sqrt, abs]

def name : Fn → String
  | sin => "sin"
  | cos => "cos"
  | tan => "tan"
  | cot => "cot"
  | sec => "sec"
  | csc => "csc"
  | exp => "exp"
  | ln => "ln"
  | sqrt => "sqrt"
  | abs => "abs"

def names : Fn → List String
  | tan => ["tan", "tg"]
  | cot => ["cot", "ctg"]
  | ln => ["ln", "log"]
  | f => [f.name]

def ofName? (s : String) : Option Fn :=
  all.find? fun f => f.names.contains (s.map Char.toLower)

end Fn

inductive BinOp where
  | add | sub | mul | div | pow
  deriving BEq, DecidableEq, Repr

namespace BinOp

def symbol : BinOp → String
  | add => "+"
  | sub => "-"
  | mul => "*"
  | div => "/"
  | pow => "^"

def precedence : BinOp → Nat
  | add | sub => 1
  | mul | div => 2
  | pow => 3

end BinOp

/-- Binding strength of a negation, above every binary operation. -/
def negPrecedence : Nat := 4

inductive Expr (α : Type) where
  | var (name : String)
  | const (value : α)
  | neg (arg : Expr α)
  | func (f : Fn) (arg : Expr α)
  | bin (op : BinOp) (left right : Expr α)
  deriving BEq, DecidableEq, Repr, Inhabited

def independent : String := "x"

def dependent : String := "y"

def integrationConstant : String := "C"

namespace Expr

variable {α : Type}

@[match_pattern] abbrev add (l r : Expr α) : Expr α := .bin .add l r
@[match_pattern] abbrev sub (l r : Expr α) : Expr α := .bin .sub l r
@[match_pattern] abbrev mul (l r : Expr α) : Expr α := .bin .mul l r
@[match_pattern] abbrev div (l r : Expr α) : Expr α := .bin .div l r
@[match_pattern] abbrev pow (l r : Expr α) : Expr α := .bin .pow l r

def mentions (v : String) : Expr α → Bool
  | .var name => name == v
  | .const _ => false
  | .neg e => e.mentions v
  | .func _ e => e.mentions v
  | .bin _ l r => l.mentions v || r.mentions v

def isClosed : Expr α → Bool
  | .var _ => false
  | .const _ => true
  | .neg e => e.isClosed
  | .func _ e => e.isClosed
  | .bin _ l r => l.isClosed && r.isClosed

def depth : Expr α → Nat
  | .var _ => 1
  | .const _ => 1
  | .neg e => e.depth + 1
  | .func _ e => e.depth + 1
  | .bin _ l r => max l.depth r.depth + 1

def subst (e : Expr α) (v : String) (s : Expr α) : Expr α :=
  match e with
  | .var name => if name == v then s else .var name
  | .const c => .const c
  | .neg e => .neg (e.subst v s)
  | .func f e => .func f (e.subst v s)
  | .bin op l r => .bin op (l.subst v s) (r.subst v s)

variable [Scalar α]

/-- A constant within the tolerance of zero. -/
def isZero : Expr α → Bool
  | .const c => Scalar.negligible c
  | _ => false

def isOne : Expr α → Bool
  | .const c => Scalar.negligible (c - Arithmetic.ofNat 1)
  | _ => false

def isMinusOne : Expr α → Bool
  | .const c => Scalar.negligible (c + Arithmetic.ofNat 1)
  | _ => false

end Expr

end SlopeField
