import Skein.AdaptedSearch
import Skein.Admission
import Skein.AdmissionDisplacement
import Skein.AdmissionHistory
import Skein.AdmissionLaws
import Skein.AdmissionRefinement
import Skein.AssistantRepos
import Skein.AssistantVersions
import Skein.AuthFilters
import Skein.AuthScopedStore
import Skein.Base64
import Skein.Binary64
import Skein.BulkCancel
import Skein.BullMqChunks
import Skein.BusRetention
import Skein.CanonicalJson
import Skein.ChannelAttempts
import Skein.ChannelPlans
import Skein.ChannelResume
import Skein.CheckpointHistory
import Skein.Checkpoints
import Skein.Consecutive
import Skein.CopiedThreads
import Skein.CrashRecovery
import Skein.CronDormancy
import Skein.CronOccurrences
import Skein.CronRepo
import Skein.CronScheduler
import Skein.CronService
import Skein.CronSweep
import Skein.DeclaredDestinations
import Skein.DeliveryAttempts
import Skein.DeliveryPayload
import Skein.DeliveryRepo
import Skein.DeliveryRetries
import Skein.DeliverySignature
import Skein.DestinationSnapshots
import Skein.DevState
import Skein.DispatchClaims
import Skein.DispatchDrain
import Skein.DispatchLeases
import Skein.DispatchMoves
import Skein.Dispatches
import Skein.DrainLoop
import Skein.EncodedText
import Skein.EventStream
import Skein.FaultyCalls
import Skein.Fingerprints
import Skein.FinishedRuns
import Skein.FromBaseStore
import Skein.HistoryGrowth
import Skein.HistoryPruning
import Skein.HistoryReferences
import Skein.HistoryReplacement
import Skein.HistoryRollback
import Skein.IdempotencyOnce
import Skein.IdempotencyRepo
import Skein.IdempotentCalls
import Skein.IdempotentHandlers
import Skein.InboundEvents
import Skein.InboundOnce
import Skein.ItemFilter
import Skein.JsAllocation
import Skein.JsData
import Skein.JsHeap
import Skein.JsStrings
import Skein.Json
import Skein.JsonValues
import Skein.Jsonb
import Skein.LateJoins
import Skein.LockContract
import Skein.LostPublishes
import Skein.Machine
import Skein.MailboxReaders
import Skein.MemoryRunEventBus
import Skein.MemoryRunQueue
import Skein.MemorySearches
import Skein.MemoryStore
import Skein.MemoryThreadEventBus
import Skein.MetadataMatch
import Skein.MigrationCalls
import Skein.MigrationHistory
import Skein.MigrationRecovery
import Skein.MigrationRuns
import Skein.Migrations
import Skein.NamespaceMatch
import Skein.NativeAdmission
import Skein.NativeState
import Skein.NumberText
import Skein.OrderedMap
import Skein.OwedRollbacks
import Skein.PathPatterns
import Skein.PostgresAdmission
import Skein.PostgresFilters
import Skein.PostgresHistory
import Skein.PostgresIntents
import Skein.PostgresNamespaces
import Skein.PostgresSimulation
import Skein.ProcessPool
import Skein.PropertyOrder
import Skein.PubSubLoss
import Skein.QueueContract
import Skein.QueueMoves
import Skein.Reachability
import Skein.Recency
import Skein.ReconciledDatabase
import Skein.RecoveryReach
import Skein.RecoveryTicks
import Skein.RedisRunEventBus
import Skein.RedisStreams
import Skein.ResumeTargets
import Skein.RollbackCancels
import Skein.RoundingOrder
import Skein.RouteMatching
import Skein.RoutedChannel
import Skein.Routes
import Skein.RunErrors
import Skein.RunLifecycle
import Skein.RunOutcomes
import Skein.RunRows
import Skein.RunSettling
import Skein.RunStreams
import Skein.RunTermination
import Skein.ServiceRounds
import Skein.SettlementHistory
import Skein.SqliteNamespaces
import Skein.SqliteQueue
import Skein.SqliteQueueContract
import Skein.SqliteQueueRows
import Skein.SqliteReconcile
import Skein.Sse
import Skein.SseDecoding
import Skein.StoreAgreement
import Skein.StoreAuthorization
import Skein.StoreDrivers
import Skein.StorePaging
import Skein.StreamReconnects
import Skein.SweeperRuns
import Skein.SweptThreads
import Skein.TableCheckpointer
import Skein.TelemetryContext
import Skein.TenantIsolation
import Skein.TenantView
import Skein.TerminatedKeys
import Skein.ThreadCheckpointer
import Skein.ThreadCopy
import Skein.ThreadLocks
import Skein.ThreadMirror
import Skein.ThreadReplay
import Skein.ThreadRetention
import Skein.ThreadRollbacks
import Skein.ThreadShownBusy
import Skein.TtlSweeper
import Skein.WireTypes
