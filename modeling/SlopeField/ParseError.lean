import SlopeField.Expr.Basic

/-!
# Errors of reading

What can be wrong with the text of an expression or an equation, and the words
for it.
-/

namespace SlopeField

inductive ParseError where
  | empty
  | invalidCharacter (ch : Char) (position : Nat)
  | malformedNumber (literal : String)
  | unknownIdentifier (name : String)
  | mismatchedParentheses
  /-- An operator, named by its symbol, has nothing to work on. -/
  | missingOperand (symbol : String)
  | functionArity (f : Fn)
  | notSingleExpression
  | tooDeep (limit : Nat)
  | missingEquals
  | badLeftHandSide (text : String)
  deriving BEq, DecidableEq, Repr

def ParseError.message : ParseError → String
  | empty => "empty input"
  | invalidCharacter ch position => s!"invalid character '{ch}' at position {position}"
  | malformedNumber literal => s!"malformed number '{literal}'"
  | unknownIdentifier name => s!"unknown identifier '{name}'"
  | mismatchedParentheses => "mismatched parentheses"
  | missingOperand symbol => s!"operator '{symbol}' is missing an operand"
  | functionArity f =>
    "function '" ++ f.name ++ "' expects exactly one argument in parentheses"
  | notSingleExpression => "input does not reduce to a single expression"
  | tooDeep limit => s!"expression is nested deeper than {limit} levels"
  | missingEquals => "equation must contain exactly one '='"
  | badLeftHandSide text => s!"left-hand side must be dy/dx, found '{text}'"

end SlopeField
