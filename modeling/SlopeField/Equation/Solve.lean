import SlopeField.Equation.Derivation
import SlopeField.Token.Lexer
import SlopeField.Token.Postfix

/-!
# Solving an equation

The text `dy/dx = ...` is read, sorted into a family and solved. `solve` gives
a record that can be shown as it is, whatever happened on the way.

The text of an expression is scanned, ordered by precedence and built into a
tree. `Expr.read` gives the tree as written, `Expr.parse` the simplified one.
-/

namespace SlopeField

variable {α : Type} [Scalar α] [Numeral α]

namespace Expr

def read (text : String) : Except ParseError (Expr α) :=
  if Text.trimList text.toList = [] then .error .empty
  else do reducePostfix (← toPostfix (← tokenize text))

def parse (text : String) : Except ParseError (Expr α) := do
  return (← read text).simplify

end Expr

def splitEquation? (text : String) : Option (List Char × List Char) :=
  let cs := text.toList
  let left := cs.takeWhile (· != '=')
  match cs.dropWhile (· != '=') with
  | _ :: right => if right.contains '=' then none else some (left, right)
  | [] => none

/-- Whether a left-hand side is `dy/dx`, up to blanks and the case of its
letters. No letter outside ASCII has one of these for its lower-case form. -/
def isDerivative (lhs : List Char) : Bool :=
  (lhs.filter (!Text.isBlank ·)).map Char.toLower == "dy/dx".toList

def parseEquation (text : String) : Except ParseError (Expr α) :=
  match splitEquation? text with
  | none => .error .missingEquals
  | some (lhs, rhs) =>
    if isDerivative lhs then Expr.parse (String.ofList rhs)
    else .error (.badLeftHandSide (Text.trim (String.ofList lhs)))

structure Solution (α : Type) where
  rhs : Expr α
  family : Family α
  derivation : Option (Derivation α)
  deriving Repr

/-- Reads, sorts and solves. A right-hand side with a part that has no value is
refused. -/
def solveEquation (text : String) : Except (SolveError α) (Solution α) := do
  let rhs : Expr α ← (parseEquation text).mapError SolveError.parse
  match rhs.undefinedConstant with
  | some part => .error (.undefinedConstant part)
  | none =>
    let family := Family.classify rhs
    return { rhs, family, derivation := ← Derivation.ofFamily family }

inductive Status where
  | ok
  | unsupported
  | error
  deriving BEq, DecidableEq, Repr

def Status.name : Status → String
  | ok => "ok"
  | unsupported => "unsupported"
  | error => "error"

structure SolveRecord (α : Type) where
  status : Status
  family : Option (Family α) := none
  normalizedEquation : Option String := none
  steps : List Step := []
  finalText : Option String := none
  solution : Option (Expr α) := none
  form : Option SolutionForm := none
  rhs : Option (Expr α) := none
  message : Option String := none
  deriving Repr

def Solution.record (s : Solution α) : SolveRecord α :=
  let normalizedEquation := some ("dy/dx = " ++ s.rhs.render)
  match s.derivation with
  | some d =>
    { status := .ok
      family := some s.family
      normalizedEquation
      steps := d.steps
      finalText := some d.finalText
      solution := d.solution
      form := some d.form
      rhs := some s.rhs }
  | none =>
    { status := .unsupported
      family := some s.family
      normalizedEquation
      rhs := some s.rhs
      message := some "the equation is not direct, separable or linear in y" }

/-- Reads, sorts and solves, with every failure told in the record. -/
def solve (text : String) : SolveRecord α :=
  match solveEquation (α := α) text with
  | .ok s => s.record
  | .error e => { status := .error, message := some e.message }

end SlopeField
