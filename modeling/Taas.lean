import Taas.Arrangements
import Taas.Asyncio
import Taas.AsyncioEvent
import Taas.AsyncioTasks
import Taas.AvroData
import Taas.AvroLegal
import Taas.AvroOutline
import Taas.AvroSchema
import Taas.AvroWalk
import Taas.AvroWriter
import Taas.Base64
import Taas.BreakerCalls
import Taas.BreakerFleet
import Taas.BreakerProbes
import Taas.BreakerRecovery
import Taas.Bulkhead
import Taas.BulkheadLimits
import Taas.CaData
import Taas.CircuitBreaker
import Taas.ConsumerGroups
import Taas.ConsumerTasks
import Taas.Currencies
import Taas.Datetime
import Taas.DbSessions
import Taas.DbTransactions
import Taas.Decimals
import Taas.Delimiters
import Taas.Dicts
import Taas.Dlq
import Taas.DlqLifeCycle
import Taas.DlqRetries
import Taas.EventBatches
import Taas.EventDelivery
import Taas.EventProcessor
import Taas.EventRoundTrip
import Taas.EventSchema
import Taas.EventValues
import Taas.Executor
import Taas.ExponentialBackoff
import Taas.Fallible
import Taas.FeeBalance
import Taas.FeeSufficiency
import Taas.FleetLockout
import Taas.FleetWindow
import Taas.FlowRegistration
import Taas.Glob
import Taas.HttpCache
import Taas.Idempotency
import Taas.IdempotencyEffect
import Taas.IdempotencyKeys
import Taas.IdempotencySeparators
import Taas.IntervalPhase
import Taas.JsonText
import Taas.KafkaBackends
import Taas.KafkaOffsets
import Taas.KafkaPublish
import Taas.Like
import Taas.Locks
import Taas.LogThrottle
import Taas.Maintenance
import Taas.MapAccum
import Taas.MsgEncoder
import Taas.Onboarding
import Taas.Outbox
import Taas.OutboxJson
import Taas.OutboxLease
import Taas.OutboxOrder
import Taas.OutboxPoller
import Taas.OutboxRetries
import Taas.OutboxStranding
import Taas.OutboxTerminal
import Taas.OutboxWakeUps
import Taas.PlainValues
import Taas.PoisonMessages
import Taas.PollIntervals
import Taas.Prefixes
import Taas.PublishPaths
import Taas.Python
import Taas.Queries
import Taas.QueryBuilder
import Taas.RateLimiter
import Taas.RedisStores
import Taas.Retry
import Taas.RetryLoop
import Taas.RetrySignals
import Taas.RetryTenacity
import Taas.Routing
import Taas.Saga
import Taas.SagaContract
import Taas.SagaDurability
import Taas.SagaErrors
import Taas.SagaPlan
import Taas.SagaStore
import Taas.Schedule
import Taas.ScheduleAccounting
import Taas.ScheduleCatchUp
import Taas.ScheduleOwner
import Taas.SchedulePoller
import Taas.ScheduleTerminal
import Taas.SchemaRegistry
import Taas.SchemaRegistryEncoder
import Taas.Sessions
import Taas.SimpleFeeEstimator
import Taas.Singletons
import Taas.Sql
import Taas.StableValues
import Taas.StorageMass
import Taas.SubscriberFanOut
import Taas.Subscriptions
import Taas.TenacityAsync
import Taas.TextOps
import Taas.Transition
import Taas.TtlCache
import Taas.Workers
