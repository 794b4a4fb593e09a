import DiffGraph.Collocation.Basis
import DiffGraph.Collocation.BlockTable
import DiffGraph.Collocation.Integrator
import DiffGraph.Collocation.Options
import DiffGraph.Collocation.Points
import DiffGraph.Collocation.Problem
import DiffGraph.Collocation.Residual
import DiffGraph.Decimal.Reading
import DiffGraph.Decimal.Shortest
import DiffGraph.Decimal.Text
import DiffGraph.Dual
import DiffGraph.Element
import DiffGraph.Error
import DiffGraph.Expr.Basic
import DiffGraph.Expr.Derivative
import DiffGraph.Expr.Elementwise
import DiffGraph.Expr.Evaluate
import DiffGraph.Expr.Permute
import DiffGraph.Expr.Rebuild
import DiffGraph.Expr.Split
import DiffGraph.Expr.Taint
import DiffGraph.Failure
import DiffGraph.Formula.Build
import DiffGraph.Formula.Token
import DiffGraph.Formula.Tree
import DiffGraph.Function.Basic
import DiffGraph.Function.Call
import DiffGraph.Function.Derivative
import DiffGraph.Function.Evaluate
import DiffGraph.Function.Expand
import DiffGraph.FunctionError
import DiffGraph.Integrate.Startup
import DiffGraph.Integrate.Step
import DiffGraph.Numeral
import DiffGraph.Offsets
import DiffGraph.Op
import DiffGraph.Pattern.Algebra
import DiffGraph.Pattern.Basic
import DiffGraph.Pattern.Blocks
import DiffGraph.Pattern.Build
import DiffGraph.Pattern.Coloring
import DiffGraph.Pattern.Column
import DiffGraph.Proofs.Function.Schedule
import DiffGraph.Proofs.Graph.Dense
import DiffGraph.Proofs.Derivative.Forward
import DiffGraph.Proofs.Derivative.Reverse
import DiffGraph.Proofs.Function.Expand
import DiffGraph.Proofs.Call.Substitution
import DiffGraph.Proofs.Solve.Convergence
import DiffGraph.Proofs.System.Jacobian
import DiffGraph.Scalar
import DiffGraph.Solve.Linear
import DiffGraph.Solve.Newton
import DiffGraph.Source.Generate
import DiffGraph.Source.Statement
import DiffGraph.System.Basic
import DiffGraph.System.Jacobian
import DiffGraph.Term.Basic
import DiffGraph.Term.Function
import DiffGraph.Term.Program
import DiffGraph.Text.Letters
import DiffGraph.Text.Quoted
import DiffGraph.Text.Unseen
import DiffGraph.Proofs.Decimal.Shortest
import DiffGraph.Proofs.Collocation.Basis
import DiffGraph.Proofs.Collocation.Problem
import DiffGraph.Proofs.Collocation.Transcription
import DiffGraph.Proofs.Collocation.Trajectory
import DiffGraph.Proofs.Collocation.Equations
import DiffGraph.Proofs.Collocation.Residual
import DiffGraph.Proofs.Collocation.Integrator
import DiffGraph.Proofs.Collocation.System
import DiffGraph.Proofs.Collocation.Quadrature
import DiffGraph.Proofs.System.Soundness
import DiffGraph.Proofs.System.Transpose
import DiffGraph.Proofs.Collocation.Guess
import DiffGraph.Proofs.Derivative.Shapes
import DiffGraph.Proofs.Collocation.Balance
import DiffGraph.Proofs.Collocation.Accepted
import DiffGraph.Proofs.Term.Correct
import DiffGraph.Proofs.Formula.Infix
import DiffGraph.Proofs.Formula.Print
import DiffGraph.Proofs.Graph.Blocks
import DiffGraph.Proofs.Solve.Sensitivity
import DiffGraph.Proofs.System.Expand
import DiffGraph.Proofs.Source.Body
import DiffGraph.Proofs.Solve.Statistics
import DiffGraph.Proofs.System.Arguments
import DiffGraph.Proofs.Function.Required
import DiffGraph.Proofs.Function.Free
import DiffGraph.Proofs.Term.Accepted
import DiffGraph.Proofs.System.Natural
import DiffGraph.Proofs.Formula.Accepts
import DiffGraph.Proofs.Formula.Power
import DiffGraph.Proofs.Collocation.Exactness
import DiffGraph.Proofs.Pattern.Inverse
import DiffGraph.Proofs.Collocation.Layout
import DiffGraph.Proofs.Pattern.Transpose
import DiffGraph.Proofs.Pattern.Union
import DiffGraph.Proofs.Pattern.Triplets
import DiffGraph.Proofs.Graph.Vertical
import DiffGraph.Proofs.Pattern.Greedy
import DiffGraph.Proofs.Integrate.Linear
