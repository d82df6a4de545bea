import SimplexMethod.Message
import SimplexMethod.Standard
import SimplexMethod.Proofs.Shapes
import SimplexMethod.Proofs.Structure
import SimplexMethod.Proofs.Sizes
import SimplexMethod.Proofs.InPlace
import SimplexMethod.Proofs.CheckedAccess
import SimplexMethod.Proofs.DualStructure
import SimplexMethod.Proofs.CheckedDual
import SimplexMethod.Proofs.CallSequence
import SimplexMethod.Proofs.Reinverted
import SimplexMethod.Proofs.StructuredRun
import SimplexMethod.Proofs.StructuredRound
import SimplexMethod.Proofs.Exact
import SimplexMethod.Proofs.MatrixView
import SimplexMethod.Proofs.Inversion
import SimplexMethod.Proofs.PartialPivoting
import SimplexMethod.Proofs.Basis
import SimplexMethod.Proofs.BasisInverse
import SimplexMethod.Proofs.Selection
import SimplexMethod.Proofs.TableauInvariant
import SimplexMethod.Proofs.Pivoting
import SimplexMethod.Proofs.PrimalRun
import SimplexMethod.Proofs.PrimalStart
import SimplexMethod.Proofs.CertifiedSolution
import SimplexMethod.Proofs.Iteration
import SimplexMethod.Proofs.TolerantRun
import SimplexMethod.Proofs.CheckedRun
import SimplexMethod.Proofs.Drift
import SimplexMethod.Proofs.ExactInverse
import SimplexMethod.Proofs.UpkeepRuns
import SimplexMethod.Proofs.DualRun
import SimplexMethod.Proofs.GivenMultipliers
import SimplexMethod.Proofs.Redundancy
import SimplexMethod.Proofs.RowChanges
import SimplexMethod.Proofs.StoredProgram
import SimplexMethod.Proofs.CheckedBasis
import SimplexMethod.Proofs.RowBookkeeping
import SimplexMethod.Proofs.FloatOrder
import SimplexMethod.Proofs.PivotThreshold
import SimplexMethod.Proofs.ArtificialProblem
import SimplexMethod.Proofs.ArtificialExchange
import SimplexMethod.Proofs.PivotSequence
import SimplexMethod.Proofs.ArtificialOptimum
import SimplexMethod.Proofs.FeasibleStart
import SimplexMethod.Proofs.Handover
import SimplexMethod.Proofs.TwoPhase
import SimplexMethod.Proofs.StartFailures
import SimplexMethod.Proofs.ColumnExchange
import SimplexMethod.Proofs.Cycling
import SimplexMethod.Proofs.Termination
import SimplexMethod.Proofs.Progress
import SimplexMethod.Proofs.DualCycling
import SimplexMethod.Proofs.DualTermination
import SimplexMethod.Proofs.DualProgress
import SimplexMethod.Proofs.ColumnReplacement
import SimplexMethod.Proofs.RowSigns
import SimplexMethod.Proofs.ArtificialRows
import SimplexMethod.Proofs.BasisCertificate
import SimplexMethod.Proofs.FirstMinimiser
