import Talbot.Foundations.Program
import Talbot.Foundations.NestedCaches
import Talbot.Foundations.Recency
import Talbot.Foundations.SetAssociative
import Talbot.Foundations.Responses
import Talbot.Foundations.Scanning
import Talbot.Foundations.OrderedMaps
import Talbot.Foundations.FallibleFolds
import Talbot.Results.MinimalEvictionSet
import Talbot.Results.StructureRecovery
import Talbot.Results.ReplacementPolicy
import Talbot.Results.NestingVerdict
import Talbot.Results.QueryReport
import Talbot.Results.MappingCoverage
import Talbot.Results.UndeterminedStructure
import Talbot.Results.SweepSynchronisation
import Talbot.Results.RecordLifetime
import Talbot.Results.HandshakeProgress
import Talbot.Results.SetEnumeration
import Talbot.Results.HugeChain
import Talbot.Results.ChainTraversal
import Talbot.Results.MeasurementWindow
import Talbot.Results.QueryWrites
import Talbot.Results.HeapDisclosure
import Talbot.Results.PermutationRows
import Talbot.Results.ReplacementOrder
import Talbot.Results.ExhaustiveSearch
import Talbot.Results.ChainBuilders
import Talbot.Results.QueryReplay
import Talbot.Results.BackingFile
import Talbot.Results.QueryPages
import Talbot.Results.ResultBuffers
import Talbot.CacheQuery.PolicyEvaluation
import Talbot.Foundations.Precedence
import Talbot.Results.RunOrder
import Talbot.Results.SignalSoundness
import Talbot.Results.AlignmentCheck
import Talbot.Foundations.Stages
import Talbot.Foundations.Sessions
import Talbot.Foundations.Traces
import Talbot.Kernel.Report
import Talbot.Machine.Evaluations
import Talbot.Machine.LongestRun
import Talbot.CrossHyperthread.Report
import Talbot.Results.ReportSize
import Talbot.Foundations.Bytes
import Talbot.Machine.Slots
import Talbot.Results.SlotViews
import Talbot.Results.HugeChainViews
import Talbot.Foundations.Monitors
import Talbot.Machine.ExchangeWindow
import Talbot.Results.TablesRestored
import Talbot.Foundations.RadixTables
import Talbot.Kernel.Paging
import Talbot.Machine.TableWalks
import Talbot.Results.PageTableWalk
import Talbot.Foundations.Simulation
import Talbot.Machine.TableMachine
import Talbot.Results.TableRefinement
import Talbot.Machine.PcidMachine
import Talbot.Results.PcidVerdicts
import Talbot.Foundations.LayeredCaches
import Talbot.Machine.Hierarchy
import Talbot.Results.HierarchyReport
import Talbot.Results.SummaryRows
import Talbot.Results.ReportParsing
import Talbot.Results.ReportSummary
import Talbot.Foundations.MappedFiles
import Talbot.UserSpace.Memory
import Talbot.Results.TriggerMemory
import Talbot.UserSpace.CpuidWrapper
import Talbot.Machine.HugeTlb
import Talbot.Results.HugeTlbVerdict
