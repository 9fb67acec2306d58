import Netbadb.BTree.Refinement
import Netbadb.Wal.Monotonic
import Netbadb.Lsm.BatchReadBack
import Netbadb.Heap.ParkedChain
import Netbadb.Buffer.Session
import Netbadb.Heap.RollbackOrder
import Netbadb.Mvcc.Stability
import Netbadb.Page.History
import Netbadb.Lsm.Durability
import Netbadb.Schema.Allocation
import Netbadb.BTree.InsertTotal
import Netbadb.Server.Isolation
import Netbadb.BTree.BuildBound
import Netbadb.Coordinator.Retry
import Netbadb.ChangeStream.Pending
import Netbadb.Executor.Aggregate
import Netbadb.Maintenance.Rotation
import Netbadb.Schema.Fingerprint
import Netbadb.Executor.Comparison
