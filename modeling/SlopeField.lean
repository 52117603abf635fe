import SlopeField.Binary64
import SlopeField.CommandLine
import SlopeField.Decimal.Basic
import SlopeField.Decimal.Binary
import SlopeField.Document.Basic
import SlopeField.Document.Reader
import SlopeField.Document.Value
import SlopeField.Equation.Derivation
import SlopeField.Equation.Factors
import SlopeField.Equation.Family
import SlopeField.Equation.Solve
import SlopeField.Expr.Affine
import SlopeField.Expr.Basic
import SlopeField.Expr.Eval
import SlopeField.Expr.Integral
import SlopeField.Expr.Printer
import SlopeField.Expr.Simplify
import SlopeField.Gallery
import SlopeField.Journal.Basic
import SlopeField.Journal.Trail
import SlopeField.Main
import SlopeField.Outcome
import SlopeField.ParseError
import SlopeField.Proofs.Binary64
import SlopeField.Proofs.Equation.ClosedForm
import SlopeField.Proofs.Equation.Family
import SlopeField.Proofs.Equation.Leaves
import SlopeField.Proofs.Exact.Basic
import SlopeField.Proofs.Exact.Factors
import SlopeField.Proofs.Exact.Families
import SlopeField.Proofs.Exact.Integral
import SlopeField.Proofs.Exact.Products
import SlopeField.Proofs.Exact.Reciprocal
import SlopeField.Proofs.Exact.Simplify
import SlopeField.Proofs.Exact.Slope
import SlopeField.Proofs.Exact.Solution
import SlopeField.Proofs.Exact.Value
import SlopeField.Proofs.Expr.Integral
import SlopeField.Proofs.Expr.Leaves
import SlopeField.Proofs.Expr.Measure
import SlopeField.Proofs.Expr.Mentions
import SlopeField.Proofs.Expr.Normal
import SlopeField.Proofs.Expr.Printed
import SlopeField.Proofs.Expr.Reading
import SlopeField.Proofs.Expr.Value
import SlopeField.Proofs.Success
import SlopeField.Proofs.Token.Acceptance
import SlopeField.Proofs.Token.Grammar
import SlopeField.Proofs.Token.Leaves
import SlopeField.Proofs.Token.Scan
import SlopeField.Proofs.Token.ShuntingYard
import SlopeField.Proofs.Token.Steps
import SlopeField.Scalar
import SlopeField.Task
import SlopeField.Text.Basic
import SlopeField.Text.CaseTable
import SlopeField.Text.HiddenTable
import SlopeField.Token.Basic
import SlopeField.Token.Lexer
import SlopeField.Token.Postfix
import SlopeField.Trajectory
import SlopeField.Workspace
import SlopeField.Proofs.Equation.GeneralSolution
import SlopeField.Proofs.Equation.SolvedForm
import SlopeField.Proofs.Equation.Undefined
import SlopeField.Proofs.Binary64.Overflow
import SlopeField.Proofs.Equation.Finite
import SlopeField.Proofs.Exact.Reading
import SlopeField.Proofs.Decimal.Positional
import SlopeField.Proofs.Decimal.Shortest
import SlopeField.Proofs.Binary64.Rounding
import SlopeField.Proofs.Binary64.Text
import SlopeField.Proofs.Equation.Depth
import SlopeField.Proofs.Equation.Record
import SlopeField.Proofs.Binary64.Order
import SlopeField.Proofs.Binary64.Operations
import SlopeField.Proofs.Trajectory
import SlopeField.Proofs.Trajectory.FourthOrder
import SlopeField.Proofs.Trajectory.Iterates
import SlopeField.Proofs.Task
import SlopeField.Proofs.Document.Grammar
import SlopeField.Proofs.Document.Contents
import SlopeField.Proofs.Document.KeyLine
import SlopeField.Proofs.Document.Sections
import SlopeField.Proofs.Document.Parse
import SlopeField.Proofs.Expr.Redex
import SlopeField.Proofs.Document.Template
import SlopeField.Proofs.Task.Fields
import SlopeField.Proofs.Exact.Defined
import SlopeField.Proofs.Exact.Faithful
import SlopeField.Proofs.Expr.Evaluators
import SlopeField.Proofs.Expr.Vanishing
import SlopeField.Proofs.Token.Conservation
import SlopeField.Proofs.Token.Spelling
import SlopeField.Proofs.Equation.Commuted
import SlopeField.Proofs.Exact.Affine
import SlopeField.Proofs.Expr.Substitution
import SlopeField.Proofs.Trajectory.Autonomous
import SlopeField.Proofs.Equation.Flattening
import SlopeField.Proofs.Token.Operands
import SlopeField.Proofs.Token.InvalidCharacter
