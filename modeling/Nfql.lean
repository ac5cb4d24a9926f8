import Nfql.Aggregations
import Nfql.AlignedFields
import Nfql.AllenAlgebra
import Nfql.AllenOperators
import Nfql.ArrivalOrder
import Nfql.AssignFuncs
import Nfql.BranchOrder
import Nfql.ByteMemory
import Nfql.ChainClusters
import Nfql.Clauses
import Nfql.CommonFields
import Nfql.Comparators
import Nfql.DeltaWindow
import Nfql.DirectoryContents
import Nfql.DisabledStages
import Nfql.EchoAgreement
import Nfql.EchoStages
import Nfql.Emissions
import Nfql.EmitMerges
import Nfql.EmitResults
import Nfql.EmitStages
import Nfql.Engine
import Nfql.EngineRuns
import Nfql.EngineStages
import Nfql.EngineStreams
import Nfql.EngineTotal
import Nfql.ExactComparators
import Nfql.ExecutableQueries
import Nfql.Filter
import Nfql.FilterInvariant
import Nfql.FilterStage
import Nfql.FoldAggregations
import Nfql.GreedyRuns
import Nfql.GroupBy
import Nfql.GroupFields
import Nfql.GroupFilter
import Nfql.GroupFrame
import Nfql.GroupIntervals
import Nfql.GroupOrder
import Nfql.GroupRecord
import Nfql.GroupTotals
import Nfql.Grouper
import Nfql.GrouperEcho
import Nfql.GrouperOutput
import Nfql.GrouperPartition
import Nfql.GrouperScan
import Nfql.GrouperStage
import Nfql.IgnoredAggregations
import Nfql.Interleavings
import Nfql.IpfixConstants
import Nfql.IpfixLayout
import Nfql.IpfixMutex
import Nfql.IpfixRegister
import Nfql.IpfixScripts
import Nfql.IpfixTempl
import Nfql.JsonC
import Nfql.JsonQuery
import Nfql.MaximalRuns
import Nfql.MeanAggregations
import Nfql.MemberFiles
import Nfql.MergeKeys
import Nfql.Merger
import Nfql.MergerDeltas
import Nfql.MergerJoin
import Nfql.MergerTuples
import Nfql.MissingSets
import Nfql.Mutexes
import Nfql.Odometer
import Nfql.OperatorBytes
import Nfql.Outcomes
import Nfql.OutputStreams
import Nfql.PermutIter
import Nfql.Pipeline
import Nfql.PlainGroups
import Nfql.PrepareFlowquery
import Nfql.QueryAnswers
import Nfql.QueryMeaning
import Nfql.QueryParsed
import Nfql.QueryRoundTrip
import Nfql.QueryRules
import Nfql.QueryStages
import Nfql.QueryTemplates
import Nfql.QueryTerms
import Nfql.RecordAccess
import Nfql.RecordBounds
import Nfql.Refusals
import Nfql.RelationalQueries
import Nfql.RelativeChains
import Nfql.ResultFiles
import Nfql.RuleNames
import Nfql.RunFaults
import Nfql.RunResults
import Nfql.RunningExtremes
import Nfql.ScriptAnswers
import Nfql.ScriptLoading
import Nfql.ScriptMeaning
import Nfql.Scripts
import Nfql.SortContract
import Nfql.SortedAggregations
import Nfql.SortedRuns
import Nfql.StageContents
import Nfql.StageFiles
import Nfql.StreamProtocol
import Nfql.TermOrder
import Nfql.ThreeWay
import Nfql.Ungrouper
import Nfql.UnionMembership
