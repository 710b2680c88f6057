import Tslock.Arango.ExclusiveTransactions
import Tslock.Cassandra.Boundary
import Tslock.CloudFrontKvs.StoreEtag
import Tslock.Core.Durations
import Tslock.Core.ExtendChain
import Tslock.Core.SimpleLock
import Tslock.Couchbase.CasLock
import Tslock.Documents.OwnRecord
import Tslock.Documents.StorageAccessor
import Tslock.Documents.Transactions
import Tslock.Drizzle.Translations
import Tslock.DurableObject.AllOrNothing
import Tslock.DurableObject.MinimumHold
import Tslock.Etcd.Attachments
import Tslock.Executor.Exclusion
import Tslock.Executor.Reentrancy
import Tslock.Executor.Release
import Tslock.Firestore.SelfHeal
import Tslock.Gcs.Preconditions
import Tslock.Hazelcast.EntryLock
import Tslock.InMemory.Refinement
import Tslock.IsoStores.ConditionalUpdates
import Tslock.IsoStores.Deadlines
import Tslock.KeepAlive.LossReports
import Tslock.KeepAlive.MinimumHold
import Tslock.KeepAlive.NoGap
import Tslock.KeepAlive.WholeDurations
import Tslock.Memcached.Expiry
import Tslock.Nats.DeadlineBytes
import Tslock.Nats.Revisions
import Tslock.Neo4j.WriteLocks
import Tslock.NodeCron.RunCoordinator
import Tslock.Redis.Tokens
import Tslock.S3.Linearizability
import Tslock.Sql.DatabaseClock
import Tslock.Sql.MutualExclusion
import Tslock.Sql.StatementRuns
import Tslock.Sql.TimeZones
import Tslock.Tenants.StoreKeys
import Tslock.Tracking.Phantoms
import Tslock.ZooKeeper.Versions
