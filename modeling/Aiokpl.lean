import Aiokpl.Lib.TransitionSystem
import Aiokpl.Lib.StableSort
import Aiokpl.Lib.LongestPrefix
import Aiokpl.Lib.Dict
import Aiokpl.Lib.FirstAppearances
import Aiokpl.Lib.Cursor
import Aiokpl.Lib.WireFormat
import Aiokpl.Lib.Refill
import Aiokpl.Lib.Keyed
import Aiokpl.Lib.Slices
import Aiokpl.Lib.Outbox
import Aiokpl.Reducer
import Aiokpl.ReducerPacking
import Aiokpl.ReducerRuns
import Aiokpl.ReducerTimers
import Aiokpl.ReducerLimits
import Aiokpl.Aggregation
import Aiokpl.AggregationFields
import Aiokpl.AggregationRoundTrip
import Aiokpl.AggregationTables
import Aiokpl.AggregationSizes
import Aiokpl.AggregationTransparency
import Aiokpl.AggregationGrammar
import Aiokpl.AggregationOrder
import Aiokpl.Hashing
import Aiokpl.Batches
import Aiokpl.BatchSizes
import Aiokpl.BatchUndo
import Aiokpl.ShardMap
import Aiokpl.ShardMapRuns
import Aiokpl.ShardTable
import Aiokpl.ShardMapRefresh
import Aiokpl.ShardMapListing
import Aiokpl.Aggregator
import Aiokpl.AggregatorRuns
import Aiokpl.AggregatorFlush
import Aiokpl.Sender
import Aiokpl.AggregatorRoutes
import Aiokpl.Retrier
import Aiokpl.RetrierTrips
import Aiokpl.DecimalParsers
import Aiokpl.RetrierRefresh
import Aiokpl.RetrierInterleavings
import Aiokpl.TokenBucket
import Aiokpl.TokenBucketQueries
import Aiokpl.Limiter
import Aiokpl.LimiterRates
import Aiokpl.LimiterShards
import Aiokpl.LimiterQueue
import Aiokpl.LimiterProgress
import Aiokpl.LimiterExpiry
import Aiokpl.Collector
import Aiokpl.CollectorShares
import Aiokpl.Producer
import Aiokpl.RecordAges
import Aiokpl.ProducerExec
import Aiokpl.ProducerStages
import Aiokpl.ProducerFrames
import Aiokpl.ProducerTurns
import Aiokpl.ProducerCalls
import Aiokpl.ProducerLedger
import Aiokpl.ProducerKinds
import Aiokpl.ProducerOpen
import Aiokpl.ProducerLock
import Aiokpl.ProducerTeardown
import Aiokpl.ProducerRunning
import Aiokpl.ProducerConservation
import Aiokpl.ProducerCancellation
import Aiokpl.ProducerRollback
import Aiokpl.ProducerEntries
import Aiokpl.ProducerShutdown
import Aiokpl.ProducerHoldings
import Aiokpl.ProducerAttempts
import Aiokpl.ProducerFates
import Aiokpl.ProducerLogs
import Aiokpl.ProducerStageLaws
import Aiokpl.ProducerPayloads
import Aiokpl.ProducerRequests
import Aiokpl.ProducerDelivery
import Aiokpl.ProducerMovers
import Aiokpl.ProducerEffort
import Aiokpl.Lib.Settling
import Aiokpl.ProducerSettles
import Aiokpl.RetrierMetrics
import Aiokpl.ProducerMetrics
import Aiokpl.ProducerRates
import Aiokpl.MetricsWindows
import Aiokpl.MetricsRuns
import Aiokpl.MetricsExports
import Aiokpl.MetricsLevels
import Aiokpl.MetricsObserved
import Aiokpl.MetricsUploads
import Aiokpl.CloudWatch
import Aiokpl.Datadog
import Aiokpl.OpenTelemetry
import Aiokpl.OpenTelemetryTotals
import Aiokpl.OpenTelemetryCounters
import Aiokpl.OpenTelemetryGauges
import Aiokpl.SyncProducerRuns
import Aiokpl.SyncBridge
import Aiokpl.SyncBridgeRuns
import Aiokpl.SyncBridgeAnswers
