import F4kvsLsm.Compaction.Manual
import F4kvsLsm.Compaction.OutputNames
import F4kvsLsm.Core.Restart

/-!
# An engine whose tables are files

Puts, deletes, flushes, manual compactions and starts of an engine on a data
directory.  Its tables are handles on the bytes of files, and everything that
a flush or a compaction writes is put into the directory.  A flush or a
compaction that fails returns its error only.
-/

namespace F4kvsLsm

open ByteCodec TableFile

/-! ## State -/

/-- A table of the live map: a handle, with the metadata that it keeps. -/
structure LiveTable where
  fileName : String
  metadata : TableFile.SSTableMetadata
  handle : SstableFile

/-- The configuration, with the compressor and the hash function of the
tables. -/
structure StoreConfig where
  load : LoadConfig
  compaction : CompactionConfig
  compressVec : Bytes → Except String Bytes
  decompressVec : Bytes → Except String Bytes
  hash : String → Nat → Nat

structure Store where
  active : Memtable
  immutables : List Memtable
  levels : Nat → List LiveTable
  sequenceNumber : Nat
  dir : TableDirectory

/-- The clock readings that go into the outputs of a compaction, in order. -/
structure OutputReadings where
  timestamp : Nat → Option Nat
  uniq : Nat → Option Nat
  createdAt : Nat → UInt64

namespace OutputReadings

/-- The names of the outputs. -/
def name (readings : OutputReadings) (level index : Nat) : SstableName :=
  .compaction level (timestampSecs (readings.timestamp index))
    (timestampNanos (readings.uniq index))

end OutputReadings

namespace TableDirectory

/-- Create a file, or truncate the one that has its name. -/
def create (dir : TableDirectory) (stored : StoredFile) : TableDirectory :=
  { dir with
    files := dir.files.filter (·.fileName ≠ stored.fileName) ++ [stored] }

/-- Files that no reader holds are unlinked at once. -/
def unlink (dir : TableDirectory) (names : List String) : TableDirectory :=
  { dir with files := dir.files.filter (·.fileName ∉ names) }

end TableDirectory

/-- The entries of the index, none when it cannot be loaded. -/
def LiveTable.indexSize (table : LiveTable) : Nat :=
  match table.handle.index with
  | .ok index => index.records.length
  | .error _ => 0

/-! ## New tables -/

section

variable (config : StoreConfig)

/-- The handle that wrote a table. -/
def writersTable (fileName : String) (written : WrittenTable)
    (short : written.file.length < 2 ^ 63) : LiveTable where
  fileName
  metadata := written.metadata
  handle :=
    { path := config.load.dataDir ++ "/" ++ fileName
      config := config.load.sstable
      metadata := written.metadata.forLookups
      index := written.index.flat
      bloomFilter := some (written.bloomFilter.mightContain config.hash)
      file := written.file
      fileOpen := false
      markedForDeletion := false
      isReady := true
      blockCompressed := true
      decompressedBlock := none
      short }

/-- A new table is written; `open` finds it ready.  No file has more than
`2 ^ 63` bytes, and without entries there is no file that could be opened. -/
def createSstable (fileName : String) (level createdAt : UInt64)
    (entries : List SSTableEntry) :
    Except LsmError (LiveTable × StoredFile) := do
  match ← writeEntries config.compressVec config.hash level createdAt
      entries with
  | some written =>
      if short : written.file.length < 2 ^ 63 then
        .ok (writersTable config fileName written short,
          ⟨fileName, written.file, short⟩)
      else .error (.io "File too large")
  | none => .error (.io "No such file or directory")

/-! ## Flushing -/

/-- The first number from the counter on whose file name is free.  The counter
wraps. -/
def freePath (files : List StoredFile) : Nat → Nat → Nat
  | 0, sequence => sequence
  | fuel + 1, sequence =>
      if (files.map (·.fileName)).contains
          (SstableName.flush 0 sequence).fileName then
        freePath files fuel ((sequence + 1) % u64Limit)
      else sequence

namespace Store

/-- Number the entries in key order; the counter wraps. -/
def stampEntries (first : Nat) (entries : List (String × Value × Bool)) :
    List SSTableEntry :=
  (entries.insertionSort (fun a b => a.1 ≤ b.1)).mapIdx fun index entry =>
    ⟨entry.1, entry.2.1, (first + index) % u64Limit, entry.2.2⟩

def persistSequenceHighWater (value : Nat) (dir : TableDirectory) :
    TableDirectory :=
  if value = 0 then dir else dir.persistSequenceFile value

/-- The checks before a flushed table is published. -/
def checkFlushed (table : LiveTable) : Except LsmError Unit :=
  if !table.handle.isReady then
    .error (.internal ("Newly created SSTable is not ready after open: " ++
      table.handle.debugPath ++
      ". Metadata and index may not be fully loaded."))
  else if table.metadata.fileSize = 0 then
    .error (.internal ("SSTable has zero file size after write: " ++
      table.handle.debugPath))
  else if table.metadata.entryCount = 0 then
    .error (.internal ("SSTable has zero entry count after write: " ++
      table.handle.debugPath))
  else if table.indexSize = 0 then
    .error (.internal ("SSTable index is empty after open (expected " ++
      toString table.metadata.entryCount ++ " entries): " ++
      table.handle.debugPath))
  else .ok ()

/-- `flush_memtable_internal` with `flush_memtable_entries_to_sstable`. -/
def flush (createdAt : UInt64) (store : Store) : Except LsmError Store :=
  if store.active.entryCount > 0 then do
    let sequence := freePath store.dir.files (store.dir.files.length + 1)
      store.sequenceNumber
    let first := (sequence + 1) % u64Limit
    let entries := stampEntries first store.active.getAllEntries
    let next := (first + entries.length) % u64Limit
    let (table, stored) ← createSstable config
      (SstableName.flush 0 sequence).fileName 0 createdAt entries
    checkFlushed table
    .ok
      { active := .new
        immutables := store.immutables
        levels := Function.update store.levels 0 (store.levels 0 ++ [table])
        sequenceNumber := next
        dir := persistSequenceHighWater next (store.dir.create stored) }
  else .ok { store with active := .new }

end Store

/-! ## Compacting -/

namespace LiveTable

/-- `valid_sstables_for_compact` -/
def validForCompact (table : LiveTable) : Bool :=
  table.handle.isReady ∧ ¬ table.handle.markedForDeletion ∧
    table.metadata.fileSize > 0 ∧ table.metadata.entryCount > 0 ∧
    table.indexSize > 0 ∧
    table.indexSize = table.metadata.entryCount.toNat

/-- `read_sstable_entries` on a clone, which has no last block. -/
def readEntries (table : LiveTable) :
    Except LsmError (List SSTableEntry) := do
  let cloned := { table.handle with decompressedBlock := none }
  if ¬ cloned.fileOpen ∧ table.indexSize > 0 then
    cloned.ensureFileOpenSync
    { cloned with fileOpen := true }.getAllEntries config.decompressVec
  else cloned.getAllEntries config.decompressVec

/-- `read_sstable_entries_safe`; a read that fails gives no entries. -/
def readEntriesSafe (table : LiveTable) : List SSTableEntry :=
  if !table.handle.isReady then []
  else if table.handle.markedForDeletion then []
  else if table.handle.file.length < table.metadata.fileSize.toNat then []
  else
    match table.readEntries config with
    | .ok entries => entries
    | .error _ => []

/-- The number of entries that were read is not the one that was written. -/
def unreadable (table : LiveTable) : Bool :=
  (table.readEntriesSafe config).length ≠ table.metadata.entryCount.toNat

/-- Order by the largest key, then by the smallest. -/
def sortLeveled (tables : List LiveTable) : List LiveTable :=
  tables.insertionSort fun first second =>
    first.metadata.largestKey < second.metadata.largestKey ∨
      first.metadata.largestKey = second.metadata.largestKey ∧
        first.metadata.smallestKey ≤ second.metadata.smallestKey

/-- The tables of a level that were not among the inputs. -/
def concurrent (files inputs : List LiveTable) : List LiveTable :=
  files.filter fun table =>
    table.fileName ∉ inputs.map (·.fileName) ∧
      ¬ table.handle.markedForDeletion

end LiveTable

namespace Store

def mergeSstablesSafe (tables : List LiveTable) :
    Except LsmError (List SSTableEntry) :=
  let corrupted := tables.filter (·.unreadable config)
  if corrupted.isEmpty then
    .ok (sortEntries (tables.flatMap (·.readEntriesSafe config)))
  else
    .error (.internal ("Compaction aborted: " ++ toString corrupted.length ++
      " SSTable(s) unreadable (would drop keys if inputs were deleted): [" ++
      ", ".intercalate (corrupted.map (·.handle.debugPath)) ++ "]"))

/-- The outputs of a compaction are created one after the other. -/
def createNewSstables (level : Nat) (readings : OutputReadings) :
    Nat → List (List SSTableEntry) → TableDirectory →
      Except LsmError (List LiveTable × TableDirectory)
  | _, [], dir => .ok ([], dir)
  | index, run :: rest, dir => do
      let (table, stored) ← createSstable config
        (readings.name level index).fileName (UInt64.ofNat level)
        (readings.createdAt index) run
      let (tables, dir) ← createNewSstables level readings (index + 1) rest
        (dir.create stored)
      .ok (table :: tables, dir)

/-- `compact_level_sstables` on tables that are ready. -/
def compactLevelSstables (level : Nat) (readings : OutputReadings)
    (tables : List LiveTable) (dir : TableDirectory) :
    Except LsmError (List LiveTable × TableDirectory) := do
  let merged ← mergeSstablesSafe config tables
  createNewSstables config level readings 0
    (cutEntries (estimatedSstableBytes config.compaction.jsonLen)
      (max config.compaction.targetSize 1) [] 0 (deduplicateEntries merged))
    dir

/-- `compact_all` of the compaction manager. -/
def compactTables (readings : OutputReadings) (store : Store) :
    Except LsmError Store :=
  if config.compaction.levelCount < 2 then
    .error (.internal "compact_all needs at least 2 levels for L0→L1")
  else
    let validL0 := (store.levels 0).filter (·.validForCompact)
    let validL1 := (store.levels 1).filter (·.validForCompact)
    let needsRewrite := (validL0 ++ validL1).any (!·.handle.blockCompressed)
    if validL0.length < 2 ∧ ¬ needsRewrite then .ok store
    else
      let inputs := validL0 ++ validL1
      if inputs.isEmpty then .ok store
      else do
        let (outputs, dir) ← compactLevelSstables config 1 readings inputs
          store.dir
        .ok { store with
          levels := Function.update
            (Function.update store.levels 0
              (LiveTable.concurrent (store.levels 0) inputs)) 1
            (LiveTable.sortLeveled
              (outputs ++ LiveTable.concurrent (store.levels 1) inputs))
          dir := dir.unlink (inputs.map (·.fileName)) }

/-- `compact_all` of the engine: a flush, then levels 0 and 1 are merged. -/
def compactAll (createdAt : UInt64) (readings : OutputReadings)
    (store : Store) : Except LsmError Store := do
  let flushed ← store.flush config createdAt
  flushed.compactTables config readings

/-! ## Starting, writing and reading -/

/-- A start on a directory; the log gives the engine one memtable. -/
def start (dir : TableDirectory) (active : Memtable) : Store :=
  let keepOpen :=
    decide (dir.loadedTables.length ≤ config.load.maxOpenFiles)
  let loaded := dir.loadExistingSstables config.load config.decompressVec
  { active
    immutables := []
    levels := fun level => (dir.loadedLevel level).map fun table =>
      ⟨table.stored.fileName, table.opened.metadata,
        table.handle config.load config.decompressVec keepOpen⟩
    sequenceNumber := loaded.1.sequenceNumber
    dir := loaded.2 }

def put (store : Store) (key : String) (value : Value) : Store :=
  { store with
    active := store.active.put config.compaction.jsonLen key value }

def delete (store : Store) (key : String) : Store :=
  { store with active := store.active.delete config.compaction.jsonLen key }

/-- What the reads of the tables look at. -/
def loaded (store : Store) : LoadedTables where
  levels := fun level => (store.levels level).map (·.handle)
  sequenceNumber := store.sequenceNumber

variable (blockCache : Option BlockCache)

def get (store : Store) (key : String) : Option Value :=
  match getFromMemtables (store.active :: store.immutables) key with
  | .found value => some value
  | .tombstone => none
  | .missing =>
      store.loaded.getFromSstables config.decompressVec blockCache
        config.compaction.levelCount key

/-- `try_get_sync` when every lock is free. -/
def tryGetSync (store : Store) (key : String) :
    Except LsmError (Option Value) :=
  match getFromMemtables (store.active :: store.immutables) key with
  | .found value => .ok (some value)
  | .tombstone => .ok none
  | .missing =>
      store.loaded.getFromSstablesSync config.decompressVec blockCache key
        (List.range config.compaction.levelCount)

end Store

end

end F4kvsLsm
