import MarkovDecision.Bellman.Operator
import MarkovDecision.Bellman.Sweep
import MarkovDecision.Description
import MarkovDecision.Failure
import MarkovDecision.InPlace
import MarkovDecision.Journal.Basic
import MarkovDecision.Journal.Recorder
import MarkovDecision.Journal.Text
import MarkovDecision.Linear.Sparse
import MarkovDecision.Linear.System
import MarkovDecision.LinearProgram.Assembly
import MarkovDecision.LinearProgram.Backend
import MarkovDecision.LinearProgram.Basic
import MarkovDecision.LinearProgram.Call
import MarkovDecision.LinearProgram.Dictionary
import MarkovDecision.LinearProgram.Exact
import MarkovDecision.LinearProgram.Recovery
import MarkovDecision.LinearProgram.Solve
import MarkovDecision.LinearProgram.States
import MarkovDecision.LinearProgram.Steps
import MarkovDecision.Literal.Basic
import MarkovDecision.Literal.Numeral
import MarkovDecision.Literal.Printable
import MarkovDecision.Literal.Reader
import MarkovDecision.Literal.Tensor
import MarkovDecision.Literal.Text
import MarkovDecision.Literal.Writer
import MarkovDecision.Model.Basic
import MarkovDecision.Model.Flat
import MarkovDecision.Model.Matrices
import MarkovDecision.Model.Merge
import MarkovDecision.Model.Reading
import MarkovDecision.Model.Table
import MarkovDecision.Model.Transition
import MarkovDecision.Number.Binary
import MarkovDecision.Number.Decimal
import MarkovDecision.Number.Norm
import MarkovDecision.Number.Power
import MarkovDecision.Number.Scalar
import MarkovDecision.Number.Shortest
import MarkovDecision.Number.Simplest
import MarkovDecision.Number.Sum
import MarkovDecision.Objective
import MarkovDecision.Policy.Basic
import MarkovDecision.Policy.Validation
import MarkovDecision.PolicyEvaluation
import MarkovDecision.PolicyIteration
import MarkovDecision.Proofs.AcceptedNumbers
import MarkovDecision.Proofs.AcceptedPolicies
import MarkovDecision.Proofs.BuiltModel
import MarkovDecision.Proofs.ChosenActions
import MarkovDecision.Proofs.CopiedModel
import MarkovDecision.Proofs.DenseRows
import MarkovDecision.Proofs.DirectedPrograms
import MarkovDecision.Proofs.DualRecovery
import MarkovDecision.Proofs.Elimination
import MarkovDecision.Proofs.ExactPasses
import MarkovDecision.Proofs.ExactSums
import MarkovDecision.Proofs.Execution
import MarkovDecision.Proofs.Extended
import MarkovDecision.Proofs.FilledStages
import MarkovDecision.Proofs.FiniteHorizon
import MarkovDecision.Proofs.FlatArrays
import MarkovDecision.Proofs.GuaranteedAccuracy
import MarkovDecision.Proofs.GuardedPasses
import MarkovDecision.Proofs.GuardedRuns
import MarkovDecision.Proofs.Interleaving
import MarkovDecision.Proofs.InterruptedRuns
import MarkovDecision.Proofs.IterationCount
import MarkovDecision.Proofs.ListedModel
import MarkovDecision.Proofs.Listings
import MarkovDecision.Proofs.MatrixModel
import MarkovDecision.Proofs.MergedModel
import MarkovDecision.Proofs.MergedPrograms
import MarkovDecision.Proofs.MergedRefusals
import MarkovDecision.Proofs.Merging
import MarkovDecision.Proofs.MirroredStages
import MarkovDecision.Proofs.Multipliers
import MarkovDecision.Proofs.PairedRuns
import MarkovDecision.Proofs.ParallelIteration
import MarkovDecision.Proofs.ParallelSweeps
import MarkovDecision.Proofs.PolicyMatrix
import MarkovDecision.Proofs.PolicyRecovery
import MarkovDecision.Proofs.PolicyRefusals
import MarkovDecision.Proofs.PolicyRounds
import MarkovDecision.Proofs.PolicyRule
import MarkovDecision.Proofs.PolicyTrajectories
import MarkovDecision.Proofs.PolicyValue
import MarkovDecision.Proofs.Process.Basic
import MarkovDecision.Proofs.Process.Discounted
import MarkovDecision.Proofs.Process.Flow
import MarkovDecision.Proofs.Process.Horizon
import MarkovDecision.Proofs.Process.Improvement
import MarkovDecision.Proofs.Process.NearlyStochastic
import MarkovDecision.Proofs.Process.TotalReward
import MarkovDecision.Proofs.Process.Trajectories
import MarkovDecision.Proofs.Process.Transience
import MarkovDecision.Proofs.Process.Transition
import MarkovDecision.Proofs.ProgramSolution
import MarkovDecision.Proofs.RankedChoice
import MarkovDecision.Proofs.RepeatedTransitions
import MarkovDecision.Proofs.Representation
import MarkovDecision.Proofs.ResumedIteration
import MarkovDecision.Proofs.RewardProcesses
import MarkovDecision.Proofs.SharedStorage
import MarkovDecision.Proofs.ShrinkingResiduals
import MarkovDecision.Proofs.SpanRule
import MarkovDecision.Proofs.SparseIteration
import MarkovDecision.Proofs.SparseRows
import MarkovDecision.Proofs.StageMemory
import MarkovDecision.Proofs.StagePolicy
import MarkovDecision.Proofs.StageRows
import MarkovDecision.Proofs.StageSweeps
import MarkovDecision.Proofs.StatePrograms
import MarkovDecision.Proofs.StatedPrograms
import MarkovDecision.Proofs.StoppingRule
import MarkovDecision.Proofs.StoredProcesses
import MarkovDecision.Proofs.StoredRuns
import MarkovDecision.Proofs.Sweep
import MarkovDecision.Proofs.ToleratedEvaluation
import MarkovDecision.Proofs.TotalRewardSolution
import MarkovDecision.Proofs.TransienceSolution
import MarkovDecision.Proofs.UndiscountedPrograms
import MarkovDecision.Proofs.ValueProgram
import MarkovDecision.Proofs.ValueRows
import MarkovDecision.Report
import MarkovDecision.RewardProcess
import MarkovDecision.Settings.Basic
import MarkovDecision.Settings.Fields
import MarkovDecision.Storage.Basic
import MarkovDecision.Storage.Solvers
import MarkovDecision.Storage.Sweep
import MarkovDecision.Tensor
import MarkovDecision.Tensor.Stretch
import MarkovDecision.ValueIteration.Backward
import MarkovDecision.ValueIteration.Basic
import MarkovDecision.ValueIteration.Fixpoint
import MarkovDecision.ValueIteration.Result
import MarkovDecision.ValueIteration.Terminal
import MarkovDecision.Workbench.Arguments
import MarkovDecision.Workbench.Basic
