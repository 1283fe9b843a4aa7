import FormulaMachine.Binary64.Exact
import FormulaMachine.Binary64.Remainder
import FormulaMachine.Binary64.Rounding
import FormulaMachine.BoundFormula
import FormulaMachine.Code.Emit
import FormulaMachine.Code.Instr
import FormulaMachine.Code.Program
import FormulaMachine.Datum
import FormulaMachine.Decimal.Literal
import FormulaMachine.Decimal.Reading
import FormulaMachine.Decimal.Shortest
import FormulaMachine.Decimal.Text
import FormulaMachine.Dual.Basic
import FormulaMachine.Dual.Binary64
import FormulaMachine.Expr.Basic
import FormulaMachine.Expr.Fault
import FormulaMachine.Expr.Parser
import FormulaMachine.FitModel
import FormulaMachine.Machine.FunctionTable
import FormulaMachine.Machine.Step
import FormulaMachine.Machine.Workspace
import FormulaMachine.NameTable
import FormulaMachine.Options
import FormulaMachine.Proofs.ByName.Evaluation
import FormulaMachine.Proofs.Names.Emission
import FormulaMachine.Scalar.Basic
import FormulaMachine.Scalar.Binary64
import FormulaMachine.Special.Digamma
import FormulaMachine.Special.Elementary
import FormulaMachine.Special.ErrorFunction
import FormulaMachine.Special.Gamma
import FormulaMachine.Text.Blank
import FormulaMachine.Text.Letter
import FormulaMachine.Text.Numeral
import FormulaMachine.Text.Ranges
import FormulaMachine.Token.Basic
import FormulaMachine.Token.Piece
import FormulaMachine.Token.Scan
import FormulaMachine.Proofs.ByName.Simulation
import FormulaMachine.Proofs.Binary64.Order
import FormulaMachine.Proofs.Machine.Homomorphism
import FormulaMachine.Proofs.Dual.Values
import FormulaMachine.Proofs.Grammar.Tree
import FormulaMachine.Proofs.Grammar.Unique
import FormulaMachine.Proofs.Grammar.Outcome
import FormulaMachine.Proofs.Grammar.Completeness
import FormulaMachine.Proofs.Grammar.Program
import FormulaMachine.Proofs.Machine.Dependence
import FormulaMachine.Proofs.Workspace.Agreement
import FormulaMachine.Proofs.Bound.History
import FormulaMachine.Proofs.Bound.Gradient
import FormulaMachine.Proofs.Code.Folding
import FormulaMachine.Proofs.Code.StackDepth
import FormulaMachine.Proofs.Workspace.Outcome
import FormulaMachine.Proofs.Token.Reading
import FormulaMachine.Proofs.Decimal.Plain
import FormulaMachine.Proofs.Expr.Parts
import FormulaMachine.Proofs.Printing.Derivation
import FormulaMachine.Proofs.Printing.RoundTrip
import FormulaMachine.Proofs.Grammar.Height
import FormulaMachine.Proofs.Decimal.Longest
import FormulaMachine.Proofs.Decimal.Spelling
import FormulaMachine.Proofs.Token.Parentheses
import FormulaMachine.Proofs.Token.Segments
import FormulaMachine.Proofs.Token.Joining
import FormulaMachine.Proofs.Code.Joining
import FormulaMachine.Proofs.Token.Places
import FormulaMachine.Proofs.Grammar.Lookahead
import FormulaMachine.Proofs.Grammar.Completion
import FormulaMachine.Proofs.Grammar.Fault
import FormulaMachine.Proofs.Names.Accesses
import FormulaMachine.Proofs.Machine.Layout
import FormulaMachine.Proofs.Names.Session
import FormulaMachine.Proofs.Workspace.Operations
import FormulaMachine.Proofs.Bound.Independence
import FormulaMachine.Proofs.Dual.Field
import FormulaMachine.Proofs.Dual.Linearity
import FormulaMachine.Proofs.Code.FoldedFormula
import FormulaMachine.Proofs.ByName.Ratio
import FormulaMachine.Proofs.Dual.Derivative
import FormulaMachine.Proofs.Bound.Lifecycle
import FormulaMachine.Proofs.FitModel.Rows
import FormulaMachine.Proofs.Bound.FoldedGradient
import FormulaMachine.Proofs.Bound.Unmentioned
import FormulaMachine.Proofs.Bound.Derivable
import FormulaMachine.Proofs.Workspace.Footprint
import FormulaMachine.Proofs.Machine.InPlace
import FormulaMachine.Proofs.Names.Recompilation
import FormulaMachine.Proofs.Token.Stray
import FormulaMachine.Proofs.Steps
import FormulaMachine.Proofs.Grammar.Walk
import FormulaMachine.Proofs.Grammar.Resumption
import FormulaMachine.Proofs.Token.Layout
import FormulaMachine.Proofs.Code.Kinds
import FormulaMachine.Proofs.Dual.Remainder
import FormulaMachine.Proofs.Dual.Power
import FormulaMachine.Proofs.Binary64.Comparison
import FormulaMachine.Proofs.Binary64.Sum
import FormulaMachine.Proofs.Special.Digamma
import FormulaMachine.Proofs.Names.Index
