import ActiveTs.MemoryStore.Serial
import ActiveTs.RedisValkey.Fence
import ActiveTs.Lib.Rely
import ActiveTs.EntityCache.LocalCache
import ActiveTs.EntityCache.Coherence
import ActiveTs.EntityCache.Recovery
import ActiveTs.EntityCache.DistributedCache
import ActiveTs.Query.Builder
import ActiveTs.Transactions.Outcome
import ActiveTs.Transactions.DeferredTasks
import ActiveTs.Outbox.Order
import ActiveTs.Outbox.Conservation
import ActiveTs.Models.Saves
import ActiveTs.Models.VersionedSaves
import ActiveTs.Outbox.StoreAdapter
import ActiveTs.Outbox.SearchSync
import ActiveTs.Outbox.Changes
import ActiveTs.Outbox.RepairGuard
import ActiveTs.Transactions.SavepointGate
import ActiveTs.Transactions.SavepointOrder
import ActiveTs.Transactions.SavepointIsolation
import ActiveTs.Lib.Cycles
import ActiveTs.Transactions.SavepointDeadlock
import ActiveTs.Outbox.MemoryOutbox
import ActiveTs.Outbox.DrainRecovery
import ActiveTs.Outbox.DocumentIdentity
import ActiveTs.Outbox.Rows
import ActiveTs.Lib.Interference
import ActiveTs.Outbox.AckBatch
import ActiveTs.Lib.Keyset
import ActiveTs.Outbox.LeaseBatch
import ActiveTs.Datastore.Keys
import ActiveTs.Datastore.RepairManifest
import ActiveTs.Datastore.Keys
import ActiveTs.Datastore.RepairRun
import ActiveTs.Datastore.RepairSafety
import ActiveTs.Lib.Lex
import ActiveTs.Lib.ThreeValued
import ActiveTs.Sql.Rows
import ActiveTs.Sql.SqliteStatements
import ActiveTs.Sql.Sqlite
import ActiveTs.Lib.Utf16
import ActiveTs.Lib.IsoDate
import ActiveTs.Sql.PostgresStatements
import ActiveTs.Sql.Postgres
import ActiveTs.Lib.Binary64
import ActiveTs.Lib.JsNumber
import ActiveTs.Lib.JsDate
import ActiveTs.FunctionCache.InputKeys
import ActiveTs.EntityIds.DatastoreKeys
import ActiveTs.Lib.KeyOrder
import ActiveTs.Query.Cursors
import ActiveTs.Query.RowOrder
import ActiveTs.Lib.Base64Url
import ActiveTs.Lib.JsonText
import ActiveTs.Lib.MergeSort
import ActiveTs.Query.CursorText
import ActiveTs.MemoryStore.Pages
import ActiveTs.Context.BatchLoader
import ActiveTs.Context.MutationMiddleware
import ActiveTs.Outbox.RetryBound
import ActiveTs.Datastore.BulkMutations
import ActiveTs.Datastore.TransactionAttempts
import ActiveTs.Lib.Registers
import ActiveTs.Search.RevisionedWrites
import ActiveTs.Search.Convergence
import ActiveTs.Sql.NativeSql
import ActiveTs.Sql.NativeGuard
import ActiveTs.Lib.Extremes
import ActiveTs.Lib.JsDateOrder
import ActiveTs.Query.StoredData
import ActiveTs.Query.DecodedRows
import ActiveTs.Query.Aggregates
import ActiveTs.Query.AggregateAgreement
import ActiveTs.EntityCache.CacheKeys
import ActiveTs.EntityCache.KeyOwners
import ActiveTs.Lib.SqlSession
import ActiveTs.Sql.PostgresTransactions
import ActiveTs.Sql.PostgresCommits
import ActiveTs.Lib.Buckets
import ActiveTs.Query.Relations
import ActiveTs.Query.RelationPreload
import ActiveTs.Query.RelationAgreement
import ActiveTs.Query.IncludePreload
import ActiveTs.EntityCache.Histories
import ActiveTs.FunctionCache.Epochs
import ActiveTs.Lib.MergeBuffers
import ActiveTs.MemoryStore.SortedRows
import ActiveTs.Lib.Utf8Order
import ActiveTs.Mongo.Documents
import ActiveTs.Mongo.Filters
import ActiveTs.Mongo.FilterAgreement
import ActiveTs.Mongo.PlanAgreement
import ActiveTs.Mongo.FilterLimits
import ActiveTs.Datastore.Inventory
import ActiveTs.Datastore.RepairPlan
import ActiveTs.Datastore.PlanReading
import ActiveTs.Datastore.NativeKeys
import ActiveTs.Datastore.PlanAcceptance
import ActiveTs.Datastore.InventoryRows
import ActiveTs.Datastore.PlanAgreement
import ActiveTs.Firestore.Transactions
import ActiveTs.Sql.PostgresQueries
import ActiveTs.Firestore.Queues
import ActiveTs.Firestore.Buffer
import ActiveTs.Firestore.Linearization
import ActiveTs.Datastore.TransactionOverlay
import ActiveTs.Datastore.TransactionBuffer
import ActiveTs.Datastore.TransactionLinearization
import ActiveTs.Transactions.OperationTracker
import ActiveTs.Transactions.TrackedOperations
