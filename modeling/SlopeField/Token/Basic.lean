import SlopeField.Expr.Basic

/-!
# Tokens

The words of an expression. Named constants are numbers already, and a minus
is a negation or a subtraction by the token before it.
-/

namespace SlopeField

inductive Token (α : Type) where
  | number (value : α)
  | var (name : String)
  | func (f : Fn)
  | op (o : BinOp)
  | neg
  | lparen
  | rparen
  | comma
  deriving BEq, DecidableEq, Repr, Inhabited

namespace Token

variable {α : Type}

def isLparen : Token α → Bool
  | .lparen => true
  | _ => false

def expectsOperand : Token α → Bool
  | .op _ | .neg | .lparen | .comma => true
  | _ => false

/-- A minus at the start, or where an operand is still to come, is a negation. -/
def minus (previous : Option (Token α)) : Token α :=
  if previous.all expectsOperand then .neg else .op .sub

def describe [Numeral α] : Token α → String
  | .number v => Numeral.text v
  | .var name => name
  | .func f => f.name
  | .op o => o.symbol
  | .neg => "-"
  | .lparen => "("
  | .rparen => ")"
  | .comma => ","

end Token

end SlopeField
