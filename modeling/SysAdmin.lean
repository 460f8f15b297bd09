import SysAdmin.CacheAgreement
import SysAdmin.CommitLocks
import SysAdmin.StagedWrites
import SysAdmin.CommitAudit
import SysAdmin.Rollback
import SysAdmin.SysAdminController
import SysAdmin.TypeStability
import SysAdmin.HookManager
import SysAdmin.KeyPaths
import SysAdmin.InterruptedWrites
import SysAdmin.Connections
import SysAdmin.LastNamespace
import SysAdmin.EmptyKeys
import SysAdmin.GetRequests
import SysAdmin.Replies
import SysAdmin.ProtobufProtocol
import SysAdmin.CommitSerializer
import SysAdmin.RustClient
import SysAdmin.CommitEffects
import SysAdmin.RollbackChecks
import SysAdmin.BatchedCommits
import SysAdmin.MigrationRuns
import SysAdmin.StorageBound
import SysAdmin.HistoryDirectory
import SysAdmin.StorageObservations
import SysAdmin.HookSelection
import SysAdmin.CoreBuckets
import SysAdmin.ExternalRunner
import SysAdmin.DetachedProcesses
import SysAdmin.BoundedDictionary
import SysAdmin.Reconnects
import SysAdmin.RabbitMQProtocol
import SysAdmin.TaskFutures
import SysAdmin.TypeChanges
import SysAdmin.TransactionIds
import SysAdmin.KeyRenames
import SysAdmin.RustValues
import SysAdmin.Condense
import SysAdmin.ClientReceive
import SysAdmin.TimeZones
import SysAdmin.NamespaceFetcher
import SysAdmin.DebugTimer
import SysAdmin.KeyIdentity
import SysAdmin.AtomicReads
import SysAdmin.ClientSessions
import SysAdmin.RustCalls
import SysAdmin.HookedServer
import SysAdmin.DaemonRestarts
import SysAdmin.SysAdminCtl
