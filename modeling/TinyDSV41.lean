import TinyDSV41.Training.BenchmarkProvider
import TinyDSV41.Training.RolloutManager
import TinyDSV41.Coordinator.RunProgress
import TinyDSV41.Coordinator.StreamProgress
import TinyDSV41.Coordinator.UnresolvedRequests
import TinyDSV41.Relay.GpuDispatch
import TinyDSV41.Relay.ClaimReceipts
import TinyDSV41.Serving.LoRAFailure
import TinyDSV41.Serving.ActorFailure
import TinyDSV41.Serving.FailureRoute
import TinyDSV41.Serving.BarrierSafety
import TinyDSV41.Supervisor.Restart
import TinyDSV41.Sealed.Transport
import TinyDSV41.Engram.GlobalRows
import TinyDSV41.Engram.PolicyLoading
import TinyDSV41.Engram.RowCacheRuns
import TinyDSV41.Sft.FullTensors
import TinyDSV41.Harbor.CompletionErrors
import TinyDSV41.Serving.LoRATransport
import TinyDSV41.Training.LearnerBatchPlanner
import TinyDSV41.Model.RowShardedEmbedding
import TinyDSV41.Dispatch.ExpertMajor
import TinyDSV41.Attention.OrderedKv
import TinyDSV41.Model.CollectiveGradients
import TinyDSV41.Engram.PrefixConfig
import TinyDSV41.Qwen.Generation
import TinyDSV41.Attention.Selection
import TinyDSV41.Cache.UnservedCalls
import TinyDSV41.Coordinator.RefusedGroups
import TinyDSV41.Sft.Batches
import TinyDSV41.Workloads.GroupInvariants
import TinyDSV41.Workloads.HostMemory
import TinyDSV41.Records.OverflowingEvidence
import TinyDSV41.Relay.InboxOrder
import TinyDSV41.Artifacts.PumpOrder
import TinyDSV41.Harbor.FileRelayRecords
import TinyDSV41.Relay.ExecuteGeneration
import TinyDSV41.Training.ClipNorm
import TinyDSV41.Engram.ReleasedTable
