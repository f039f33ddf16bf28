import Talon.WriteCache.Generations
import Talon.SmallStore.KeysRuns
import Talon.Fuse.WriteHandle
import Talon.Metadata.QuorumMerge
import Talon.Metadata.Corruption
import Talon.Worker.VersionCache
import Talon.Worker.Residency
import Talon.Worker.PageRuns
import Talon.Worker.CacheRequests
import Talon.Worker.ScopeRuns
import Talon.Gateway.Freedoms
import Talon.Gateway.Multipart
import Talon.Gateway.ChunkedRuns
import Talon.Catalog.Runs
import Talon.Journal.Replay
import Talon.Worker.BlockIndex
import Talon.Worker.LruPins
import Talon.Worker.LruRecovery
import Talon.Core.RateLimit
import Talon.SmallStore.Lookup
import Talon.SmallStore.RecordsRuns
import Talon.Worker.PageMap
import Talon.Journal.Machines
import Talon.Worker.WalCommit
