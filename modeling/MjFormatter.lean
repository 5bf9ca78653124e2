import MjFormatter.Engine.AccuracyGate
import MjFormatter.Engine.CertaintyFilter
import MjFormatter.Engine.Mat5
import MjFormatter.Engine.PolicyInterference
import MjFormatter.Engine.SemanticImpact
import MjFormatter.Graph.Snapshot
import MjFormatter.Library.BitMasks
import MjFormatter.Library.ChunkLoops
import MjFormatter.Library.Escapes
import MjFormatter.Library.Lanes
import MjFormatter.Library.LayeredSearch
import MjFormatter.Library.Pivots
import MjFormatter.Library.Queues
import MjFormatter.Parser.VectorScan
import MjFormatter.Verified.AffectedFiles
import MjFormatter.Verified.AtomicWrites
import MjFormatter.Verified.BatchPlanning
import MjFormatter.Verified.CertaintyFilters
import MjFormatter.Verified.CheckTransparency
import MjFormatter.Verified.CheckpointGate
import MjFormatter.Verified.CholeskyFactors
import MjFormatter.Verified.ClaimedLines
import MjFormatter.Verified.ClangLanes
import MjFormatter.Verified.ClangPathAgreement
import MjFormatter.Verified.CompactedRows
import MjFormatter.Verified.CompactionFixpoint
import MjFormatter.Verified.CompileArguments
import MjFormatter.Verified.ComponentSolvers
import MjFormatter.Verified.ConsistentRenames
import MjFormatter.Verified.ContextIndexes
import MjFormatter.Verified.EditCoverage
import MjFormatter.Verified.EditReplay
import MjFormatter.Verified.FailClosedEvidence
import MjFormatter.Verified.FormatFallback
import MjFormatter.Verified.FoundedDrops
import MjFormatter.Verified.GraphMetrics
import MjFormatter.Verified.GraphWellFormed
import MjFormatter.Verified.GuardNames
import MjFormatter.Verified.GuardPlacement
import MjFormatter.Verified.HeaderConsensus
import MjFormatter.Verified.ImpactRanges
import MjFormatter.Verified.IncludeStability
import MjFormatter.Verified.IncrementalParsing
import MjFormatter.Verified.IncrementalTraversal
import MjFormatter.Verified.JoinedLines
import MjFormatter.Verified.JournalFrames
import MjFormatter.Verified.KeywordTokens
import MjFormatter.Verified.LaneBalance
import MjFormatter.Verified.LearningCounters
import MjFormatter.Verified.LenientRefinement
import MjFormatter.Verified.LineOwnership
import MjFormatter.Verified.MacroRegions
import MjFormatter.Verified.MemberOrder
import MjFormatter.Verified.MultiprocessPass
import MjFormatter.Verified.NamingSuggestions
import MjFormatter.Verified.NumericRewrites
import MjFormatter.Verified.ParameterLists
import MjFormatter.Verified.ParseOrder
import MjFormatter.Verified.PostEditRegressions
import MjFormatter.Verified.PragmaSpacing
import MjFormatter.Verified.PropagationOrder
import MjFormatter.Verified.PublishedRenames
import MjFormatter.Verified.RefreshedParses
import MjFormatter.Verified.RenameCoverage
import MjFormatter.Verified.RenameTargets
import MjFormatter.Verified.RollbackAtomicity
import MjFormatter.Verified.ScalarFilter
import MjFormatter.Verified.SchemaMigration
import MjFormatter.Verified.SemanticAtomicity
import MjFormatter.Verified.SinglePass
import MjFormatter.Verified.SolverSoundness
import MjFormatter.Verified.StageAttempts
import MjFormatter.Verified.StateFileDamage
import MjFormatter.Verified.SteadyColumns
import MjFormatter.Verified.SteadyRulers
import MjFormatter.Verified.SuppressionAgreement
import MjFormatter.Verified.SymbolNames
import MjFormatter.Verified.UndoneRuns
import MjFormatter.Verified.VectorScanners
