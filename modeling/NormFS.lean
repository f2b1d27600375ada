import NormFS.Cloud.Keys
import NormFS.Cloud.Paths
import NormFS.Cloud.Range
import NormFS.Crypto
import NormFS.Decode.Indexed
import NormFS.Decode.Survive
import NormFS.Disk
import NormFS.Disk.Changes
import NormFS.GoClient.Calls
import NormFS.GoClient.Closed
import NormFS.GoClient.Disconnect
import NormFS.GoClient.Order
import NormFS.GoClient.Pending
import NormFS.GoClient.UintN
import NormFS.Headers
import NormFS.Instance
import NormFS.Instance.Enqueue
import NormFS.Instance.Writers
import NormFS.Lib.Channel
import NormFS.Lib.Framing
import NormFS.Lib.Guards
import NormFS.Lib.Hex
import NormFS.Lib.Iterate
import NormFS.Lib.LittleEndian
import NormFS.Lib.Memo
import NormFS.Lib.Outcome
import NormFS.Lib.Runs
import NormFS.Lib.Simulation
import NormFS.Lib.Stride
import NormFS.Lib.UnixPath
import NormFS.Lookup
import NormFS.Lookup.Exact
import NormFS.Lookup.GapFree
import NormFS.Lookup.Holes
import NormFS.Lookup.Rounds
import NormFS.Lookup.Sparse
import NormFS.Mem.Batch
import NormFS.Mem.Calls
import NormFS.Mem.FileReads
import NormFS.Mem.Handover
import NormFS.Mem.Queue
import NormFS.Mem.Reads
import NormFS.Mem.Stream
import NormFS.Mem.Subscription
import NormFS.Offload
import NormFS.Offload.Cleanup
import NormFS.Offload.Directories
import NormFS.Paths
import NormFS.Paths.Extremes
import NormFS.Reader.Bounded
import NormFS.Reader.Contiguous
import NormFS.Reader.Ends
import NormFS.Reader.Exact
import NormFS.Reader.Follow
import NormFS.Reader.Fsm
import NormFS.Reader.History
import NormFS.Reader.Live
import NormFS.Reader.Overlap
import NormFS.Reader.Prefetch
import NormFS.Reader.Requests
import NormFS.Reader.Sequential
import NormFS.Reader.Walk
import NormFS.Recovery
import NormFS.Recovery.Journal
import NormFS.Recovery.Lifetime
import NormFS.Recovery.Reuse
import NormFS.Recovery.Session
import NormFS.Server.Changes
import NormFS.Server.Processor
import NormFS.Server.Queues
import NormFS.Server.Streams
import NormFS.Server.Tasks
import NormFS.Server.Writes
import NormFS.Store.Coherence
import NormFS.Store.Content
import NormFS.Store.Header
import NormFS.Store.Ranges
import NormFS.Store.Untrusted
import NormFS.Store.Worker
import NormFS.Types
import NormFS.UintN.Basic
import NormFS.UintN.Codec
import NormFS.UintN.Exact
import NormFS.UintN.Value
import NormFS.Wal.AckFileWriter
import NormFS.Wal.Content
import NormFS.Wal.CrashPrefix
import NormFS.Wal.Damaged
import NormFS.Wal.Durability
import NormFS.Wal.Entry
import NormFS.Wal.Header
import NormFS.Wal.Layout
import NormFS.Wal.OrderedBuffer
import NormFS.Wal.Ordering
import NormFS.Wal.Progress
import NormFS.Wal.Range
import NormFS.Wal.Reader
import NormFS.Wal.Retries
import NormFS.Wal.Scan
import NormFS.Wal.Synced
import NormFS.Wal.Task
import NormFS.Wal.Verdict
import NormFS.Wal.Writer
