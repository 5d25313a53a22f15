import DistributedSystem.LockRaces
import DistributedSystem.LockFailure
import DistributedSystem.LockProgress
import DistributedSystem.LockWakeup
import DistributedSystem.DsmServer
import DistributedSystem.DsmHome
import DistributedSystem.DsmWaiting
import DistributedSystem.DsmClient
import DistributedSystem.DsmTable
import DistributedSystem.DsmDirectory
import DistributedSystem.DsmCurrent
import DistributedSystem.LockSeqno
import DistributedSystem.NodeList
import DistributedSystem.NodeRaces
import DistributedSystem.LockIndependence
import DistributedSystem.ThreadMigration
import DistributedSystem.Dispatcher
import DistributedSystem.DsmLists
import DistributedSystem.DsmKeys
import DistributedSystem.DsmIndex
import DistributedSystem.DsmInvariant
import DistributedSystem.DsmFailure
import DistributedSystem.DsmAttach
import DistributedSystem.DsmFault
import DistributedSystem.NodeBuffer
import DistributedSystem.NodeAddress
import DistributedSystem.LockHistory
import DistributedSystem.LockDeferral
import DistributedSystem.DsmRuns
import DistributedSystem.DsmMessages
import DistributedSystem.ThreadServer
import DistributedSystem.LockMessages
import DistributedSystem.LocalAddress
import DistributedSystem.LockCluster
