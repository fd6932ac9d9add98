import KvStore.Types
import KvStore.Storage.Wal
import KvStore.Storage.Crc
import KvStore.Storage.Engine
import KvStore.Storage.Interleaving
import KvStore.Cluster.Murmur
import KvStore.Cluster.Ring
import KvStore.Cluster.Routing
import KvStore.Cluster.Membership
import KvStore.Common.Protocol
import KvStore.Server.Coordinator
import KvStore.Cluster.Replication
import KvStore.Cluster.Wire
import KvStore.Cluster.Quorum
import KvStore.Server.Decoding
import KvStore.Server.Connection
import KvStore.Common.ThreadPool
import KvStore.Cluster.Gossip
import KvStore.Client.Cli
