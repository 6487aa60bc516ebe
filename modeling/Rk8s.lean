import Rk8s.Slayerfs.Chunk.RoundTrip
import Rk8s.Slayerfs.Vfs.LastWriter
import Rk8s.Slayerfs.Chunk.Compact.ReadsUnchanged
import Rk8s.Slayerfs.Chunk.Compact.GcSafe
import Rk8s.Slayerfs.Meta.SliceCache
import Rk8s.Slayerfs.Meta.Truncate
import Rk8s.Slayerfs.Meta.FileLock
import Rk8s.Slayerfs.Vfs.CommitTask
import Rk8s.Slayerfs.Vfs.HandleGate
import Rk8s.Slayerfs.Vfs.ReadAt
import Rk8s.Slayerfs.Meta.Etcd.GenerateId
import Rk8s.Slayerfs.Vfs.RenameExact
import Rk8s.Xline.Curp.Acknowledged
import Rk8s.Xline.Curp.CommitSafety
import Rk8s.Xline.Api.ValidationExact
import Rk8s.Xline.Auth.CacheExact
import Rk8s.Xline.Curp.CmdWorker
import Rk8s.Xline.Server.LeaseConsistent
import Rk8s.Xline.Wal.Remover
import Rk8s.Scheduler.Accounting
import Rk8s.Scheduler.NoLostPod
import Rk8s.Scheduler.Hints
import Rk8s.Scheduler.TaintScore
import Rk8s.Libnetwork.Ipam.Search
import Rk8s.Libnetwork.Ipam.Processes
import Rk8s.Rks.Network.AcquireLease
import Rk8s.Rks.Controllers.Rest
import Rk8s.Dagrs.Run
import Rk8s.Libvault.Lease
import Rk8s.Libvault.TokenUses
import Rk8s.Slayerfs.Meta.Etcd.ChunkScan
