import FluxBalance.Newton.Scalar
import FluxBalance.Handles.Facade
import FluxBalance.Main
import FluxBalance.Proofs.Scalar.Exact
import FluxBalance.Proofs.Scalar.Doubles
import FluxBalance.Proofs.Network.Chains
import FluxBalance.Proofs.Network.Construction
import FluxBalance.Proofs.Study.Solution
import FluxBalance.Proofs.Study.Rollback
import FluxBalance.Proofs.Constraint.Leftover
import FluxBalance.Proofs.Constraint.Subsystem
import FluxBalance.Proofs.Newton.Bounds
import FluxBalance.Proofs.Study.Loops
import FluxBalance.Proofs.Study.Solvable
import FluxBalance.Proofs.Study.Ordering
import FluxBalance.Proofs.Constraint.Account
import FluxBalance.Proofs.Study.Merging
import FluxBalance.Proofs.Handles.Calls
import FluxBalance.Proofs.Study.Conservation
import FluxBalance.Proofs.Study.Forgetting
import FluxBalance.Proofs.Study.Runs
import FluxBalance.Proofs.Constraint.Escapes
import FluxBalance.Proofs.Study.Repetition
import FluxBalance.Proofs.Study.Interruption
import FluxBalance.Proofs.Study.Attaching
import FluxBalance.Proofs.Constraint.Attempts
import FluxBalance.Proofs.Constraint.Intervals
import FluxBalance.Proofs.Handles.Histories
import FluxBalance.Proofs.Equation.Meaning
import FluxBalance.Proofs.Model.RoundTrip
import FluxBalance.Proofs.Model.Configuration
import FluxBalance.Proofs.Study.Reversal
import FluxBalance.Proofs.Newton.Linear
import FluxBalance.Proofs.Newton.SingleEquation
import FluxBalance.Proofs.CommandLine.Exits
import FluxBalance.Proofs.DenseMatrix.Outcomes
import FluxBalance.Proofs.Newton.Limit
import FluxBalance.Proofs.Newton.Stencils
import FluxBalance.Proofs.Equation.Unknowns
import FluxBalance.Proofs.Constraint.Counts
import FluxBalance.Proofs.Constraint.Progress
import FluxBalance.Proofs.Study.Patience
import FluxBalance.Proofs.Newton.Orders
import FluxBalance.Proofs.DenseMatrix.Verdicts
import FluxBalance.Proofs.Study.FixedPoint
import FluxBalance.Proofs.Study.Adding
import FluxBalance.Proofs.DenseMatrix.RowOps
import FluxBalance.Proofs.Newton.Backtracking
import FluxBalance.Proofs.Network.Guards
