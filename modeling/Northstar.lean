import Northstar.Consensus.Safety
import Northstar.Zig.Torn
import Northstar.Zig.Registry
import Northstar.Replication.Order
import Northstar.Replication.Acks
import Northstar.Consensus.Membership
import Northstar.Zig.ClaimAtomic
import Northstar.Zig.CacheCoherence
import Northstar.Zig.Readers
import Northstar.Zig.Atomic
import Northstar.Replication.Backpressure
import Northstar.Zig.ModelV2
import Northstar.Refmodel.Failures
import Northstar.Replication.Frame
import Northstar.Replication.Handshake
import Northstar.Wal.LsnSequence
import Northstar.Events.Persistence
import Northstar.Cartridge.RoundTrip
import Northstar.Btree.Accounting
import Northstar.Btree.Image
import Northstar.Btree.Routing
import Northstar.Pager.Coherence
import Northstar.Btree.Values
import Northstar.Db.Scans
import Northstar.Db.OwnWrites
import Northstar.Db.DeleteRuns
import Northstar.Btree.Versions
import Northstar.Btree.Delta
import Northstar.Consensus.Backtracking
import Northstar.Consensus.Compaction
import Northstar.Zig.LeafEdits
import Northstar.Zig.PrefixBound
import Northstar.Zig.Routing
import Northstar.Zig.RangeReads
import Northstar.Refmodel.Serialize
import Northstar.Snap.Cleanup
import Northstar.Recovery.BackupFiles
import Northstar.Degradation.CircuitBreaker
import Northstar.Analytics.Calendar
import Northstar.QueryPlan.ParallelScan
import Northstar.Cartridge.Invalidation
import Northstar.Cartridge.AsOf
import Northstar.Cartridge.StructuredMemory
import Northstar.Cache.Node
import Northstar.Cloud.RoundTrip
import Northstar.QueryPlan.Grouping
import Northstar.Plugins.Registry
import Northstar.Queries.PlanInvalidation
import Northstar.Cache.Prefetch
import Northstar.Cloud.Retry
import Northstar.Zig.Reconnect
import Northstar.Queries.EntityLinker
