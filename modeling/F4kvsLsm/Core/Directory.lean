import F4kvsLsm.Core.TableNames
import F4kvsLsm.Lib.HighWater
import F4kvsLsm.Storage.TableRoundTrip

/-!
# The data directory

A restart finds files with names and bytes.  The tables are opened, sorted
into levels by their names, and asked for keys; the next sequence number comes
from the names, the tables, and a file of its own.
-/

namespace F4kvsLsm

open ByteCodec Digits TableFile Versions

/-! ## The directory -/

structure StoredFile where
  fileName : String
  bytes : Bytes
  short : bytes.length < 2 ^ 63

/-- The files in the order in which the directory is read, and what is in
`SEQUENCE` when there is one. -/
structure TableDirectory where
  files : List StoredFile
  sequence : Option Bytes

/-- What loading looks at of the configuration. -/
structure LoadConfig where
  dataDir : String
  sstable : SstableConfig
  maxOpenFiles : Nat

/-- A table whose metadata were read. -/
structure LoadedTable where
  stored : StoredFile
  opened : OpenedTable

/-! ## The sequence file -/

/-- The characters that `trim` takes away. -/
def isWhiteSpace (c : Char) : Bool :=
  (0x09 ≤ c.toNat ∧ c.toNat ≤ 0x0d) ∨ c.toNat ∈
    [0x20, 0x85, 0xa0, 0x1680, 0x2000, 0x2001, 0x2002, 0x2003, 0x2004,
      0x2005, 0x2006, 0x2007, 0x2008, 0x2009, 0x200a, 0x2028, 0x2029, 0x202f,
      0x205f, 0x3000]

def trim (text : List Char) : List Char :=
  ((text.dropWhile isWhiteSpace).reverse.dropWhile isWhiteSpace).reverse

/-- `load_sequence_file`; nothing looks at its error. -/
def TableDirectory.loadSequenceFile (dir : TableDirectory) : Option Nat :=
  match dir.sequence with
  | none => some 0
  | some bytes => do
      let text ← strFromBytes bytes
      fromStrRadix 10 u64Limit (trim text.toList)

def TableDirectory.persistSequenceFile (dir : TableDirectory) (value : Nat) :
    TableDirectory :=
  { dir with sequence := some (strBytes (toString value ++ "\n")) }

def saturatingAdd (first second : Nat) : Nat :=
  min (first + second) (u64Limit - 1)

/-! ## Opening the tables -/

def StoredFile.openSync (stored : StoredFile) : Except LsmError LoadedTable :=
  (tryReadMetadata stored.bytes).map fun opened => ⟨stored, opened⟩

namespace TableDirectory

/-- The table files with the levels of their names. -/
def jobs (dir : TableDirectory) : List (Nat × StoredFile) :=
  dir.files.filterMap fun stored =>
    (parseSstableLevelFromFilename stored.fileName).map fun level =>
      (level, stored)

/-- The tables that open, with their levels. -/
def loadedTables (dir : TableDirectory) : List (Nat × LoadedTable) :=
  dir.jobs.filterMap fun (level, stored) =>
    stored.openSync.toOption.map fun table => (level, table)

/-- Order by the largest key, then by the smallest. -/
def sortLoaded (tables : List LoadedTable) : List LoadedTable :=
  tables.insertionSort fun first second =>
    first.opened.metadata.largestKey < second.opened.metadata.largestKey ∨
      first.opened.metadata.largestKey = second.opened.metadata.largestKey ∧
        first.opened.metadata.smallestKey ≤
          second.opened.metadata.smallestKey

def loadedLevel (dir : TableDirectory) (level : Nat) : List LoadedTable :=
  let found := (dir.loadedTables.filter fun job => job.1 = level).map (·.2)
  if level > 0 then sortLoaded found else found

/-- The highest number of a flush among all names. -/
def maxFlushSeq (dir : TableDirectory) : Nat :=
  HighWater.highest (dir.files.filterMap fun stored =>
    parseSstableFlushSequenceFromFilename stored.fileName)

/-- A flush of some entries stamps them with the numbers behind its own. -/
def maxEntryTs (dir : TableDirectory) : Nat :=
  HighWater.highest (dir.loadedTables.filterMap fun (_, table) =>
    (parseSstableFlushSequenceFromFilename table.stored.fileName).map
      (saturatingAdd · table.opened.metadata.entryCount.toNat))

/-- Resume behind everything that was seen, and not below the file. -/
def nextSequence (dir : TableDirectory) : Nat :=
  max (saturatingAdd (max dir.maxFlushSeq dir.maxEntryTs) 1)
    (dir.loadSequenceFile.getD 0)

end TableDirectory

/-! ## The loaded tables -/

/-- The records of an index.  A lookup panics where a record does not lie
inside the data; such an index counts as one that cannot be read. -/
def PackedIndex.flat (index : PackedIndex) : Except LsmError FlatIndex :=
  match index.recOff.mapM fun off => index.recordAtOff off.toNat with
  | .ok records => .ok ⟨records⟩
  | .error _ => .error (.internal "slice index out of range")

section

variable (config : LoadConfig) (decompressVec : Bytes → Except String Bytes)

/-- The table as a lookup meets it. -/
def LoadedTable.handle (fileOpen : Bool) (table : LoadedTable) :
    SstableFile where
  path := config.dataDir ++ "/" ++ table.stored.fileName
  config := config.sstable
  metadata := table.opened.metadata.forLookups
  index := do
    let index ← table.opened.ensureIndexLoaded decompressVec
      (config.dataDir ++ "/" ++ table.stored.fileName) table.stored.bytes
    index.flat
  bloomFilter := none
  file := table.stored.bytes
  fileOpen
  markedForDeletion := false
  isReady := true
  blockCompressed := table.opened.blockCompressed
  decompressedBlock := none
  short := table.stored.short

/-- What the engine has after loading. -/
structure LoadedTables where
  levels : Nat → List SstableFile
  sequenceNumber : Nat

/-- `load_existing_sstables`, with the directory that it leaves behind.  With
more tables than may be open at once all of them are closed. -/
def TableDirectory.loadExistingSstables (dir : TableDirectory) :
    LoadedTables × TableDirectory :=
  let keepOpen := decide (dir.loadedTables.length ≤ config.maxOpenFiles)
  let next := dir.nextSequence
  ({ levels := fun level =>
      (dir.loadedLevel level).map (·.handle config decompressVec keepOpen)
     sequenceNumber := next },
    if next > dir.loadSequenceFile.getD 0 then dir.persistSequenceFile next
    else dir)

end

/-! ## Reading them -/

namespace SstableLookupResult

/-- A missing key has the stamp zero. -/
def timestamp : SstableLookupResult → Nat
  | .found _ timestamp => timestamp
  | .tombstone timestamp => timestamp
  | .missing => 0

def value : SstableLookupResult → Option Value
  | .found value _ => some value
  | .tombstone _ => none
  | .missing => none

/-- Whether a lookup knows the key. -/
def hit : SstableLookupResult → Option SstableLookupResult
  | .missing => none
  | other => some other

end SstableLookupResult

/-- `find_sstable_for_key` -/
def SstableFile.findForKey (files : List SstableFile) (key : String) :
    Option SstableFile :=
  match files[BinarySearch.partitionPoint
      (fun table => table.metadata.largestKey < key) files]? with
  | some table =>
      if key ≥ table.metadata.smallestKey ∧ key ≤ table.metadata.largestKey
      then some table else none
  | none => none

namespace LoadedTables

variable (decompressVec : Bytes → Except String Bytes)
  (blockCache : Option BlockCache)

/-- The tables of a level that may have the key. -/
def candidates (level : Nat) (files : List SstableFile) (key : String) :
    List SstableFile :=
  if level = 0 then files.filter (·.keyMayExist key)
  else ((SstableFile.findForKey files key).filter
    (·.keyMayExist key)).toList

def lookupLogged (table : SstableFile) (key : String) :
    Option SstableLookupResult :=
  match table.lookupPinned decompressVec key blockCache with
  | .ok answer => answer.hit
  | .error _ => none

/-- One level of `get_from_sstables`: in level 0 the newest version, below it
the first one. -/
def getFromLevel (level : Nat) (files : List SstableFile) (key : String) :
    Option SstableLookupResult :=
  let hits := (candidates level files key).filterMap fun table =>
    lookupLogged decompressVec blockCache table key
  if level = 0 then newest SstableLookupResult.timestamp hits
  else hits.head?

def getFromSstables (levelCount : Nat) (loaded : LoadedTables)
    (key : String) : Option Value :=
  ((List.range levelCount).findSome? fun level =>
    getFromLevel decompressVec blockCache level (loaded.levels level)
      key).bind SstableLookupResult.value

/-- One level of `get_from_sstables_sync`, where a lookup that fails ends the
read. -/
def getFromLevelSync (level : Nat) (files : List SstableFile) (key : String) :
    Except LsmError (Option SstableLookupResult) := do
  let answers ← (candidates level files key).mapM fun table =>
    table.lookupSync decompressVec key blockCache
  let hits := answers.filterMap SstableLookupResult.hit
  return if level = 0 then newest SstableLookupResult.timestamp hits
    else hits.head?

/-- The levels are asked in turn until one knows the key. -/
def getFromSstablesSync (loaded : LoadedTables) (key : String) :
    List Nat → Except LsmError (Option Value)
  | [] => .ok none
  | level :: rest => do
      match ← getFromLevelSync decompressVec blockCache level
          (loaded.levels level) key with
      | some hit => return hit.value
      | none => getFromSstablesSync loaded key rest

end LoadedTables

/-! ## Opening a directory again -/

theorem isWhiteSpace_digitChar {digit : Nat} (small : digit < 10) :
    isWhiteSpace digit.digitChar = false := by
  have all : ∀ digit < 10, isWhiteSpace (Nat.digitChar digit) = false := by
    decide
  exact all digit small

theorem isWhiteSpace_toDigits {number : Nat} {c : Char}
    (member : c ∈ Nat.toDigits 10 number) : isWhiteSpace c = false := by
  obtain ⟨digit, small, rfl⟩ := mem_toDigits (by decide) member
  exact isWhiteSpace_digitChar small

theorem dropWhile_of_none {α : Type} {taken : α → Bool} {items : List α}
    (none : ∀ item ∈ items, taken item = false) :
    items.dropWhile taken = items := by
  cases items with
  | nil => rfl
  | cons item rest =>
      rw [List.dropWhile_cons_of_neg]
      rw [none item List.mem_cons_self]
      exact Bool.false_ne_true

theorem trim_line (number : Nat) :
    trim (Nat.toDigits 10 number ++ [Char.ofNat 10]) =
      Nat.toDigits 10 number := by
  have digits : ∀ c ∈ Nat.toDigits 10 number, isWhiteSpace c = false :=
    fun c => isWhiteSpace_toDigits
  obtain ⟨first, rest, whole⟩ :=
    List.exists_cons_of_ne_nil (@Nat.toDigits_ne_nil number 10)
  have front : (Nat.toDigits 10 number ++ [Char.ofNat 10]).dropWhile
      isWhiteSpace = Nat.toDigits 10 number ++ [Char.ofNat 10] := by
    rw [whole, List.cons_append, List.dropWhile_cons_of_neg]
    rw [digits first (whole ▸ List.mem_cons_self)]
    exact Bool.false_ne_true
  rw [trim, front, List.reverse_append, List.reverse_singleton,
    List.singleton_append, List.dropWhile_cons_of_pos (by decide),
    dropWhile_of_none fun c member => digits c (List.mem_reverse.mp member),
    List.reverse_reverse]

namespace TableDirectory

variable {dir : TableDirectory}

/-- The number that was written is read. -/
theorem loadSequenceFile_persistSequenceFile {value : Nat}
    (small : value < u64Limit) :
    (dir.persistSequenceFile value).loadSequenceFile = some value := by
  have line : (toString value ++ "\n").toList =
      Nat.toDigits 10 value ++ [Char.ofNat 10] := by
    rw [String.toList_append]
    simp
  rw [loadSequenceFile, persistSequenceFile]
  dsimp only
  rw [strFromBytes_strBytes, Option.bind_eq_bind, Option.bind_some, line,
    trim_line]
  exact fromStrRadix_toDigits (by decide) (by decide) small

theorem saturatingAdd_lt (first second : Nat) :
    saturatingAdd first second < u64Limit := by
  rw [saturatingAdd, u64Limit]
  omega

theorem loadSequenceFile_lt : dir.loadSequenceFile.getD 0 < u64Limit := by
  have positive : 0 < u64Limit := by decide
  cases read : dir.loadSequenceFile with
  | none => exact positive
  | some value =>
      rw [loadSequenceFile] at read
      split at read
      · cases read
        exact positive
      · obtain ⟨text, -, number⟩ := Option.bind_eq_some_iff.mp read
        exact fromStrRadix_lt number

theorem nextSequence_lt : dir.nextSequence < u64Limit :=
  max_lt (saturatingAdd_lt _ _) loadSequenceFile_lt

/-- A number that is not the last one is above every number that was seen. -/
theorem lt_saturatingAdd_one {seen number bound : Nat} (member : number ≤ seen)
    (above : saturatingAdd seen 1 ≤ bound) (small : bound < u64Limit - 1) :
    number < bound := by
  rw [saturatingAdd] at above
  omega

theorem flushSequence_lt_nextSequence {stored : StoredFile} {sequence : Nat}
    (small : dir.nextSequence < u64Limit - 1) (member : stored ∈ dir.files)
    (named : parseSstableFlushSequenceFromFilename stored.fileName =
      some sequence) : sequence < dir.nextSequence := by
  have seen : sequence ≤ dir.maxFlushSeq :=
    HighWater.le_highest (List.mem_filterMap.mpr ⟨stored, member, named⟩)
  exact lt_saturatingAdd_one (seen.trans (le_max_left _ _))
    (le_max_left _ _) small

theorem stamp_lt_nextSequence {stored : StoredFile} {table : LoadedTable}
    {level sequence : Nat} (small : dir.nextSequence < u64Limit - 1)
    (member : stored ∈ dir.files)
    (leveled : parseSstableLevelFromFilename stored.fileName = some level)
    (named : parseSstableFlushSequenceFromFilename stored.fileName =
      some sequence) (opens : stored.openSync = .ok table) :
    sequence + table.opened.metadata.entryCount.toNat < dir.nextSequence := by
  have same : table.stored = stored := by
    rw [StoredFile.openSync] at opens
    cases read : tryReadMetadata stored.bytes with
    | error failure =>
        rw [read] at opens
        cases opens
    | ok opened =>
        rw [read] at opens
        cases opens
        rfl
  have job : (level, stored) ∈ dir.jobs :=
    List.mem_filterMap.mpr ⟨stored, member, by rw [leveled]; rfl⟩
  have loaded : (level, table) ∈ dir.loadedTables :=
    List.mem_filterMap.mpr
      ⟨(level, stored), job, by dsimp only; rw [opens]; rfl⟩
  have seen : saturatingAdd sequence table.opened.metadata.entryCount.toNat ≤
      dir.maxEntryTs :=
    HighWater.le_highest (List.mem_filterMap.mpr
      ⟨(level, table), loaded, by dsimp only; rw [same, named]; rfl⟩)
  have below := lt_saturatingAdd_one (seen.trans (le_max_right _ _))
    (le_max_left _ _) small
  have limit : 0 < u64Limit := by decide
  rw [saturatingAdd] at below
  change _ < dir.nextSequence at below
  omega

end TableDirectory

theorem TableDirectory.nextSequence_persistSequenceFile (dir : TableDirectory) :
    (dir.persistSequenceFile dir.nextSequence).nextSequence =
      dir.nextSequence := by
  have read : (dir.persistSequenceFile dir.nextSequence).loadSequenceFile =
      some dir.nextSequence :=
    loadSequenceFile_persistSequenceFile nextSequence_lt
  rw [nextSequence, read]
  exact max_eq_right (le_max_left _ _)

theorem loadExistingSstables_again (config : LoadConfig)
    (decompressVec : Bytes → Except String Bytes) (dir : TableDirectory) :
    (dir.loadExistingSstables config decompressVec).2.loadExistingSstables
        config decompressVec =
      dir.loadExistingSstables config decompressVec := by
  by_cases ahead : dir.nextSequence > dir.loadSequenceFile.getD 0
  · have left : (dir.loadExistingSstables config decompressVec).2 =
        dir.persistSequenceFile dir.nextSequence := if_pos ahead
    have read : (dir.persistSequenceFile dir.nextSequence).loadSequenceFile =
        some dir.nextSequence :=
      TableDirectory.loadSequenceFile_persistSequenceFile
        TableDirectory.nextSequence_lt
    have settled : ¬ dir.nextSequence >
        (dir.persistSequenceFile dir.nextSequence).loadSequenceFile.getD 0 := by
      rw [read]
      exact Nat.lt_irrefl _
    refine Prod.ext ?_ ?_
    · rw [left]
      change LoadedTables.mk _ (TableDirectory.nextSequence _) = _
      rw [TableDirectory.nextSequence_persistSequenceFile]
      rfl
    · rw [left, TableDirectory.loadExistingSstables]
      dsimp only
      rw [TableDirectory.nextSequence_persistSequenceFile, if_neg settled]
  · have left : (dir.loadExistingSstables config decompressVec).2 = dir :=
      if_neg ahead
    rw [left]

/-- Opening a directory again finds what the first opening has found and
leaves the directory as it is; a table that is flushed next meets no file of
its name, and its stamps are above those of the flushed tables. -/
theorem opening_again (config : LoadConfig)
    (decompressVec : Bytes → Except String Bytes) (dir : TableDirectory) :
    (dir.loadExistingSstables config decompressVec).2.loadExistingSstables
        config decompressVec =
      dir.loadExistingSstables config decompressVec ∧
    ((dir.loadExistingSstables config decompressVec).1.sequenceNumber <
        u64Limit - 1 →
      ∀ stored ∈ dir.files,
        (∀ level < u64Limit, stored.fileName ≠ (SstableName.flush level
          (dir.loadExistingSstables config
            decompressVec).1.sequenceNumber).fileName) ∧
        ∀ level sequence table,
          parseSstableLevelFromFilename stored.fileName = some level →
          parseSstableFlushSequenceFromFilename stored.fileName =
            some sequence →
          stored.openSync = .ok table →
          sequence + table.opened.metadata.entryCount.toNat <
            (dir.loadExistingSstables config
              decompressVec).1.sequenceNumber) := by
  refine ⟨loadExistingSstables_again config decompressVec dir,
    fun small stored member => ⟨?_, ?_⟩⟩
  · intro level fits same
    have named : parseSstableFlushSequenceFromFilename stored.fileName =
        some dir.nextSequence := by
      rw [same]
      exact parseSstableFlushSequenceFromFilename_fileName
        ⟨fits, TableDirectory.nextSequence_lt⟩
    exact absurd (dir.flushSequence_lt_nextSequence small member named)
      (Nat.lt_irrefl _)
  · intro level sequence table leveled named opens
    exact dir.stamp_lt_nextSequence small member leveled named opens

/-- A flush that was torn, and a sequence file that nothing was written to. -/
def tornDirectory : TableDirectory where
  files := [⟨"L0_000000000000001f.sst", [], by decide⟩]
  sequence := some []

/-- The number of the torn flush is not given again. -/
theorem tornDirectory_again :
    tornDirectory.nextSequence = 32 ∧
    (tornDirectory.loadExistingSstables ⟨"data", ⟨3, true⟩, 8⟩
        Except.ok).2.loadExistingSstables ⟨"data", ⟨3, true⟩, 8⟩ Except.ok =
      tornDirectory.loadExistingSstables ⟨"data", ⟨3, true⟩, 8⟩ Except.ok ∧
    ∀ stored ∈ tornDirectory.files,
      stored.fileName ≠ (SstableName.flush 0 32).fileName := by
  have next : tornDirectory.nextSequence = 32 := by decide +kernel
  obtain ⟨again, free⟩ :=
    opening_again ⟨"data", ⟨3, true⟩, 8⟩ Except.ok tornDirectory
  have small : tornDirectory.nextSequence < u64Limit - 1 := by
    rw [next]
    decide
  refine ⟨next, again, fun stored member => ?_⟩
  have other := (free small stored member).1 0 (by decide)
  change stored.fileName ≠
    (SstableName.flush 0 tornDirectory.nextSequence).fileName at other
  rwa [next] at other

end F4kvsLsm
