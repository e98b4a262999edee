import F4kvsLsm.Config
import F4kvsLsm.Error
import F4kvsLsm.Lib.LittleEndian
import F4kvsLsm.Lib.Decoder
import F4kvsLsm.Lib.Framing
import F4kvsLsm.Lib.Crc32
import F4kvsLsm.Lib.LastWrite
import F4kvsLsm.Lib.Newest
import F4kvsLsm.Lib.DoubleBuffer
import F4kvsLsm.Lib.StableSort
import F4kvsLsm.Lib.PartitionPoint
import F4kvsLsm.Lib.Runs
import F4kvsLsm.Lib.Pipeline
import F4kvsLsm.Lib.KeyOrder
import F4kvsLsm.Lib.Overlay
import F4kvsLsm.Lib.Fallible
import F4kvsLsm.Lib.Cursor
import F4kvsLsm.Value
import F4kvsLsm.Bincode
import F4kvsLsm.Storage.Entry
import F4kvsLsm.Storage.FramedEntry
import F4kvsLsm.Storage.Memtable
import F4kvsLsm.Storage.Sstable
import F4kvsLsm.Storage.RoundTrip
import F4kvsLsm.Storage.Layers
import F4kvsLsm.Wal.FileWal
import F4kvsLsm.Wal.FileWalInvariant
import F4kvsLsm.Wal.FileWalWrites
import F4kvsLsm.Wal.Indexed
import F4kvsLsm.Wal.IndexedInvariant
import F4kvsLsm.Wal.IndexedWrites
import F4kvsLsm.Wal.IndexFile
import F4kvsLsm.Wal.IndexedSteps
import F4kvsLsm.Wal.IndexedLog
import F4kvsLsm.Wal.ResumeFrames
import F4kvsLsm.Wal.StaleIndex
import F4kvsLsm.Wal.StaleRuns
import F4kvsLsm.Wal.AppendOrder
import F4kvsLsm.Wal.VerifiedTruncation
import F4kvsLsm.Wal.GroupCommit
import F4kvsLsm.Wal.GroupCommitFiles
import F4kvsLsm.Wal.GroupCommitSteps
import F4kvsLsm.Wal.GroupCommitOrder
import F4kvsLsm.Wal.FlushBarrier
import F4kvsLsm.Wal.Handle
import F4kvsLsm.Wal.Sessions
import F4kvsLsm.Wal.Shutdown
import F4kvsLsm.Wal.CrashImages
import F4kvsLsm.Wal.Cleanup
import F4kvsLsm.Core.Tree
import F4kvsLsm.Core.CheckedReads
import F4kvsLsm.Core.Reloads
import F4kvsLsm.Core.Recovery
import F4kvsLsm.Core.Truncation
import F4kvsLsm.Core.Load
import F4kvsLsm.Compaction.Manager
import F4kvsLsm.Compaction.Merge
import F4kvsLsm.Compaction.Reads
import F4kvsLsm.Compaction.CheckedMerge
import F4kvsLsm.Compaction.Level
import F4kvsLsm.Compaction.Correct
import F4kvsLsm.Compaction.Preserved
import F4kvsLsm.Compaction.Crash
import F4kvsLsm.Compaction.Concurrent
import F4kvsLsm.Compaction.FileNames
import F4kvsLsm.Compaction.LiveMap
import F4kvsLsm.Compaction.LevelOrder
import F4kvsLsm.Compaction.Install
import F4kvsLsm.Compaction.SingleFlight
import F4kvsLsm.Compaction.Pins
import F4kvsLsm.Engine.History
import F4kvsLsm.Compaction.Manual
import F4kvsLsm.Engine.QuiescentReads
import F4kvsLsm.Lib.LiveCount
import F4kvsLsm.Lib.PendingCount
import F4kvsLsm.Engine.KeyCount
import F4kvsLsm.Engine.Scans
import F4kvsLsm.Engine.ColumnFamilies
import F4kvsLsm.Engine.CheckedScans
import F4kvsLsm.Engine.ScanReads
import F4kvsLsm.Engine.KeyScans
import F4kvsLsm.Engine.PrefixScan
import F4kvsLsm.Engine.PrefixScanReads
import F4kvsLsm.Engine.PrefixScanYields
import F4kvsLsm.Engine.Unreadable
import F4kvsLsm.Engine.Flushes
import F4kvsLsm.Engine.FlushOnce
import F4kvsLsm.Engine.FlushOrder
import F4kvsLsm.Engine.Writers
import F4kvsLsm.Engine.LogOrder
import F4kvsLsm.Engine.FlushDurable
import F4kvsLsm.Engine.ConcurrentGet
import F4kvsLsm.Engine.Durable
import F4kvsLsm.Engine.DurableDisk
import F4kvsLsm.Engine.DurableSteps
import F4kvsLsm.Engine.DurableTables
import F4kvsLsm.Engine.DurableRuns
import F4kvsLsm.Engine.CrashDurable
import F4kvsLsm.Engine.FamilyIsolation
import F4kvsLsm.Engine.SequenceRuns
import F4kvsLsm.Engine.Clear
import F4kvsLsm.Engine.ClearRuns
import F4kvsLsm.Engine.ConcurrentScan
import F4kvsLsm.Engine.ScanInvariant
import F4kvsLsm.Engine.ScanRuns
import F4kvsLsm.Wal.Unlinked
import F4kvsLsm.Wal.UnlinkedWrites
import F4kvsLsm.Engine.ConcurrentCount
import F4kvsLsm.Wal.FailedAppend
import F4kvsLsm.Engine.WriteErrors
import F4kvsLsm.Engine.WriteTraces
import F4kvsLsm.Engine.Checkpoints
import F4kvsLsm.Storage.RangeLayers
import F4kvsLsm.Engine.LimitedScans
import F4kvsLsm.Engine.FamilyRanges
import F4kvsLsm.Engine.FamilyPrefixes
import F4kvsLsm.Engine.FamilyLife
import F4kvsLsm.Engine.ScanNext
import F4kvsLsm.Lib.LockAttempts
import F4kvsLsm.Lib.TryCursor
import F4kvsLsm.Engine.SyncScans
import F4kvsLsm.Engine.BatchPuts
import F4kvsLsm.Wal.SharedSegments
import F4kvsLsm.Wal.Rotation
import F4kvsLsm.Lib.MapTotal
import F4kvsLsm.Storage.MemtableSize
import F4kvsLsm.Storage.BlockCache
import F4kvsLsm.Compaction.Partition
import F4kvsLsm.Wal.Retention
import F4kvsLsm.Wal.CommitTrigger
import F4kvsLsm.Compaction.Selection
import F4kvsLsm.Compaction.Adaptive
import F4kvsLsm.Lib.Digits
import F4kvsLsm.Compaction.OutputNames
import F4kvsLsm.Compaction.Settle
import F4kvsLsm.Storage.SstableFile
import F4kvsLsm.Storage.Lookups
import F4kvsLsm.Lib.Exchange
import F4kvsLsm.Wal.LiveReads
import F4kvsLsm.Lib.Intervals
import F4kvsLsm.Core.LevelSearch
import F4kvsLsm.Compaction.MergeOrder
import F4kvsLsm.Lib.BitPacking
import F4kvsLsm.Storage.BloomFilter
import F4kvsLsm.Lib.OrderedCode
import F4kvsLsm.Lib.FallibleSearch
import F4kvsLsm.Storage.PackedIndex
import F4kvsLsm.Storage.IndexAnswers
import F4kvsLsm.Storage.IndexSafety
import F4kvsLsm.ValueJson
import F4kvsLsm.Lib.ExactRead
import F4kvsLsm.Storage.MmapReader
import F4kvsLsm.Storage.FileReader
import F4kvsLsm.Storage.ReadModes
import F4kvsLsm.Lib.LastMatch
import F4kvsLsm.Storage.TableMetadata
import F4kvsLsm.Storage.TableWriter
import F4kvsLsm.Storage.TableReader
import F4kvsLsm.Storage.TableOpening
import F4kvsLsm.Storage.TableRoundTrip
import F4kvsLsm.Lib.NumberTexts
import F4kvsLsm.Lib.Corresponding
import F4kvsLsm.Core.TableNames
import F4kvsLsm.Core.Directory
import F4kvsLsm.Core.Restart
import F4kvsLsm.Engine.Store
import F4kvsLsm.Engine.LiveTables
import F4kvsLsm.Engine.StoreSteps
import F4kvsLsm.Engine.StoreCompaction
import F4kvsLsm.Engine.StoreRuns
import F4kvsLsm.Lib.Memo
import F4kvsLsm.Storage.CachedReads
import F4kvsLsm.Engine.CachingReads
import F4kvsLsm.Engine.CachingRuns
import F4kvsLsm.Engine.LoggedStore
import F4kvsLsm.Engine.LoggedSteps
import F4kvsLsm.Engine.LoggedRuns
