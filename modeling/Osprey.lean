import Osprey.Engine.StrandedWaiters
import Osprey.Engine.CountErrorOnce
import Osprey.Engine.HasLabel
import Osprey.Engine.CompileValidated
import Osprey.Engine.Confluence
import Osprey.Worker.OutputSink
import Osprey.Worker.RulesSink
import Osprey.Worker.LabelRetry
import Osprey.Coordinator.Kafka
import Osprey.Coordinator.PriorityQueue
import Osprey.UiApi.CensorExcept
import Osprey.UiApi.EventViews
import Osprey.Worker.EngineStartup
import Osprey.Coordinator.RecursiveKeyWatcher
import Osprey.Coordinator.ServiceWatcher
import Osprey.Worker.ServiceWatcher
import Osprey.Coordinator.LeaseRenewal
import Osprey.Coordinator.BidirectionalStream
import Osprey.Coordinator.Announcer
import Osprey.Worker.EtcdHashRing
import Osprey.Engine.ValidateLabels
import Osprey.Engine.QueryValidation
import Osprey.Engine.PublishedSources
import Osprey.Worker.LabelStorage
import Osprey.Worker.BulkLabelProgress
import Osprey.Worker.BulkLabelAttempts
import Osprey.Worker.EtcdDict
import Osprey.Worker.EtcdTree
import Osprey.Coordinator.CachedFutures
import Osprey.Worker.BulkLabelQueries
import Osprey.Coordinator.TokenRefresher
import Osprey.Worker.MultiOutputSink
import Osprey.Coordinator.MessageDecoder
