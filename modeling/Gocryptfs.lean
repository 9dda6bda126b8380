import Gocryptfs.Basic
import Gocryptfs.Schedule
import Gocryptfs.ParallelCrypto
import Gocryptfs.Cryptocore.AEAD
import Gocryptfs.ContentEnc.Block
import Gocryptfs.ContentEnc.Merge
import Gocryptfs.ContentEnc.Blocks
import Gocryptfs.WriteCoalescing.Buffer
import Gocryptfs.WriteCoalescing.Manager
import Gocryptfs.WriteCoalescing.Acknowledged
import Gocryptfs.Base64
import Gocryptfs.FilenameAuth
import Gocryptfs.Cryptocore.AdaptivePrefetch
import Gocryptfs.Cryptocore.PrefetchPanic
import Gocryptfs.Cryptocore.OptimizedBackend
import Gocryptfs.Configfile.KDF
import Gocryptfs.Ctlsocksrv.RateLimit
import Gocryptfs.ParallelCrypto.Legacy
import Gocryptfs.ParallelCrypto.Ranges
import Gocryptfs.Memprotect
import Gocryptfs.Cryptocore.Pools
import Gocryptfs.Ctlsocksrv.Handler
