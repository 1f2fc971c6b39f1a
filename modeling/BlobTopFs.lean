import BlobTopFs.Lib.Run
import BlobTopFs.Lib.Machine
import BlobTopFs.Lib.Memory
import BlobTopFs.Fs.Types
import BlobTopFs.Spdk.Blobstore
import BlobTopFs.SimpleFs.BlobOp
import BlobTopFs.SimpleFs.File
import BlobTopFs.SimpleFs.FileSpec
import BlobTopFs.SimpleFs.MonopolyIo
import BlobTopFs.SimpleFs.TransferSpec
import BlobTopFs.SimpleFs.Dir
import BlobTopFs.SimpleFs.MonopolyOps
import BlobTopFs.SimpleFs.Descriptor
import BlobTopFs.SimpleFs.Super
import BlobTopFs.Files.RoundTrip
import BlobTopFs.SimpleFs.Calls
import BlobTopFs.Directory.Capacity
import BlobTopFs.Directory.NameMap
import BlobTopFs.Directory.Persistence
import BlobTopFs.SimpleFs.TransferFrame
import BlobTopFs.Files.Ownership
import BlobTopFs.Directory.Integrity
import BlobTopFs.Files.References
import BlobTopFs.Files.StoredSize
import BlobTopFs.Memory.Registry
import BlobTopFs.Async.Completion
import BlobTopFs.Files.Accounting
import BlobTopFs.Files.CreateAtomic
import BlobTopFs.Files.Routing
import BlobTopFs.Directory.Resolution
import BlobTopFs.Lib.Chunks
import BlobTopFs.SimpleFs.ChunkRuns
import BlobTopFs.Files.Growth
import BlobTopFs.Files.PrefixLaws
import BlobTopFs.Files.Counts
import BlobTopFs.Files.BackedSize
import BlobTopFs.SimpleFs.Requests
import BlobTopFs.Files.Positions
import BlobTopFs.Files.ZeroCopy
import BlobTopFs.Files.SequentialRead
import BlobTopFs.Files.OpenFlags
import BlobTopFs.Lib.Split
import BlobTopFs.SimpleFs.PathParts
import BlobTopFs.Directory.PathWalk
import BlobTopFs.Directory.PathFrame
import BlobTopFs.Directory.WriteBack
import BlobTopFs.Memory.Teardown
import BlobTopFs.Async.Load
import BlobTopFs.Files.FreeSlots
import BlobTopFs.Memory.FreeEntries
import BlobTopFs.Directory.PathTokens
import BlobTopFs.Directory.NameLimits
import BlobTopFs.Memory.RadixRuns
import BlobTopFs.Memory.RadixGang
import BlobTopFs.Memory.Interposed
import BlobTopFs.Files.Isolation
import BlobTopFs.Files.ClosedFiles
import BlobTopFs.Files.Durability
import BlobTopFs.Files.Coherence
import BlobTopFs.Files.Process
import BlobTopFs.Fio.Engine
