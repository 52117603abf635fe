import SlopeField.ParseError
import SlopeField.Token.Basic

/-!
# Operator precedence

Tokens in the order they are written become tokens in postfix order, with a
stack for the operators and open parentheses; postfix tokens become a tree,
with a stack of operands. A binary operator first releases the operators above
it on the stack that bind tighter, or equally if it groups to the left. A
negation binds tighter than every binary operator, and a function stays under
the parenthesis of its argument.
-/

namespace SlopeField

variable {α : Type}

def maxDepth : Nat := 256

def BinOp.releases (o : BinOp) : Token α → Bool
  | .op top => o.precedence < top.precedence || (o.precedence == top.precedence && o != .pow)
  | .neg => o.precedence < negPrecedence
  | _ => false

/-- A reordering in progress: the operators waiting, top first, the tokens put
out, last first, and whether a parenthesis was opened just now. -/
structure Yard (α : Type) where
  operators : List (Token α) := []
  output : List (Token α) := []
  opened : Bool := false

namespace Yard

def push (y : Yard α) (t : Token α) : Yard α :=
  { y with operators := t :: y.operators, opened := t.isLparen }

def emit (y : Yard α) (t : Token α) : Yard α :=
  { y with output := t :: y.output, opened := false }

def release (p : Token α → Bool) (y : Yard α) : Yard α :=
  { y with
    operators := y.operators.dropWhile p
    output := (y.operators.takeWhile p).reverse ++ y.output }

/-- The operators waiting below the last open parenthesis, after those above
it are put out. -/
def close (y : Yard α) : Except ParseError (List (Token α) × List (Token α)) :=
  let y := y.release (!·.isLparen)
  match y.operators with
  | [] => .error .mismatchedParentheses
  | _ :: below => .ok (below, y.output)

/-- Takes the next token; `next` is the one after it. -/
def step (y : Yard α) (t : Token α) (next : Option (Token α)) : Except ParseError (Yard α) :=
  match t with
  | .number _ => .ok (y.emit t)
  | .var _ => .ok (y.emit t)
  | .func f => if next.any Token.isLparen then .ok (y.push t) else .error (.functionArity f)
  | .neg => .ok (y.push t)
  | .lparen => .ok (y.push t)
  | .op o => .ok ((y.release o.releases).push t)
  | .comma => do
    -- No function takes two arguments, so a comma is always wrong.
    match (← y.close).1 with
    | .func f :: _ => .error (.functionArity f)
    | _ => .error .notSingleExpression
  | .rparen =>
    if y.opened then
      match y.operators.drop 1 with
      | .func f :: _ => .error (.functionArity f)
      | _ => .error (.missingOperand "()")
    else do
      let (below, output) ← y.close
      match below with
      | .func f :: rest => .ok { operators := rest, output := .func f :: output }
      | _ => .ok { operators := below, output }

def run (y : Yard α) : List (Token α) → Except ParseError (List (Token α))
  | [] =>
    if y.operators.any Token.isLparen then .error .mismatchedParentheses
    else .ok (y.output.reverse ++ y.operators)
  | t :: ts => do (← y.step t ts.head?).run ts

end Yard

def toPostfix (ts : List (Token α)) : Except ParseError (List (Token α)) :=
  ({} : Yard α).run ts

structure Operand (α : Type) where
  tree : Expr α
  depth : Nat

namespace Operand

def stack (operands : List (Operand α)) (tree : Expr α) (depth : Nat) :
    Except ParseError (List (Operand α)) :=
  if maxDepth < depth then .error (.tooDeep maxDepth) else .ok (⟨tree, depth⟩ :: operands)

def step [Numeral α] (operands : List (Operand α)) (t : Token α) :
    Except ParseError (List (Operand α)) :=
  match t with
  | .number v => stack operands (.const v) 1
  | .var name => stack operands (.var name) 1
  | .neg => match operands with
    | a :: rest => stack rest (.neg a.tree) (a.depth + 1)
    | [] => .error (.missingOperand "-")
  | .func f => match operands with
    | a :: rest => stack rest (.func f a.tree) (a.depth + 1)
    | [] => .error (.functionArity f)
  | .op o => match operands with
    | r :: l :: rest => stack rest (.bin o l.tree r.tree) (max l.depth r.depth + 1)
    | _ => .error (.missingOperand o.symbol)
  -- A parenthesis or comma never reaches the postfix order.
  | other => .error (.missingOperand other.describe)

end Operand

def reducePostfix [Numeral α] (ts : List (Token α)) : Except ParseError (Expr α) := do
  match ← ts.foldlM Operand.step [] with
  | [e] => .ok e.tree
  | _ => .error .notSingleExpression

end SlopeField
