import F4kvsLsm.Core.LevelSearch
import F4kvsLsm.Engine.LiveTables

/-!
# What the files of an engine stand for

The live map and the files of the directory hold the tables of a tree, and the
file of the sequence number its counter.  Writes, flushes and starts keep
this, each with the step of the tree.
-/

namespace F4kvsLsm

open ByteCodec KeyOrder TableFile Versions

/-- A write that comes back from a table, when it is flushed. -/
structure Writable (key : String) (value : Value) : Prop where
  clean : CleanKey key
  notJson : value.isJson = false
  small : (SSTableEntry.mk key value 0 value.isNull).encode.length ≤
    maxFramedEntry

theorem Writable.storable {entry : SSTableEntry}
    (writable : Writable entry.key entry.value)
    (stamp : entry.timestamp < 2 ^ 64) : entry.Storable :=
  ReadsBack.storable ⟨writable.notJson, writable.small⟩ stamp

/-- An engine and the tree that its memtables and files stand for. -/
structure Holds (config : StoreConfig) (store : Store) (tree : LsmTree)
    (contents : List FileContent) : Prop where
  active : tree.active = store.active
  noneParked : store.immutables = []
  noneParked' : tree.immutables = []
  levels : ∀ level, List.Forall₂ (LiveOf config) (store.levels level)
    (tree.levels level)
  sequence : tree.sequenceNumber = store.sequenceNumber
  below : store.sequenceNumber < u64Limit
  mark : store.dir.loadSequenceFile = some store.sequenceNumber
  files : List.Forall₂ (Represents config.compressVec config.hash)
    store.dir.files contents
  names : (store.dir.files.map (·.fileName)).Nodup
  tables : (contents.filterMap FileContent.table).Perm
    (tree.levels 0 ++ tree.levels 1)
  flushNames : ∀ name ∈ contents.filterMap FileContent.name, ∀ sequence,
    name.flushSequence = some sequence → sequence < store.sequenceNumber
  flushStamps : ∀ table ∈ tree.levels 0 ++ tree.levels 1, ∀ sequence,
    table.name.flushSequence = some sequence →
      sequence + table.entries.length < store.sequenceNumber
  writable : ∀ key value, store.active.data[key]? = some value →
    Writable key value
  kept : ∀ entry ∈ allEntries (tree.levels 0 ++ tree.levels 1),
    entry.Storable ∧ CleanKey entry.key

section

variable {config : StoreConfig} {store after : Store} {tree : LsmTree}
  {contents : List FileContent} {createdAt : UInt64}

/-! ## Writing -/

theorem Holds.put (holds : Holds config store tree contents) {key : String}
    {value : Value} (writable : Writable key value) :
    Holds config (store.put config key value)
      (tree.put config.compaction.jsonLen key value) contents :=
  { holds with
    active := congrArg (·.put config.compaction.jsonLen key value)
      holds.active
    writable := fun other held found => by
      rw [Store.put, Memtable.put_get] at found
      split at found
      · case isTrue same =>
          cases found
          exact same ▸ writable
      · exact holds.writable other held found }

theorem Holds.delete (holds : Holds config store tree contents)
    {key : String} (clean : Writable key .null) :
    Holds config (store.delete config key)
      (tree.delete config.compaction.jsonLen key) contents :=
  { holds with
    active := congrArg (·.delete config.compaction.jsonLen key) holds.active
    writable := fun other held found => by
      rw [Store.delete, Memtable.delete_get] at found
      split at found
      · case isTrue same =>
          cases found
          exact same ▸ clean
      · exact holds.writable other held found }

/-! ## Flushing -/

theorem Holds.flushName_free (holds : Holds config store tree contents) :
    ∀ stored ∈ store.dir.files, stored.fileName ≠
      (SstableName.flush 0 store.sequenceNumber).fileName := by
  intro stored member same
  have fits : (SstableName.flush 0 store.sequenceNumber).Fits :=
    ⟨by decide, holds.below⟩
  have named := parseSstableFlushSequenceFromFilename_fileName fits
  rw [← same] at named
  obtain ⟨content, listed, here⟩ :=
    Corresponding.exists_right holds.files member
  have other : ∀ name, content.name = some name → name.Fits →
      stored.fileName = name.fileName → False := by
    intro name isName fits' same'
    rw [same', parseSstableFlushSequenceFromFilename_fileName fits'] at named
    have less := holds.flushNames name
      (List.mem_filterMap.mpr ⟨content, listed, isName⟩) _ named
    exact Nat.lt_irrefl _ less
  cases content with
  | whole name entries written =>
      have intact : Intact config.compressVec config.hash name entries written
        stored := here
      exact other name rfl intact.fits intact.named
  | torn name => exact other name rfl here.2.1 here.1
  | other =>
      rw [here.2] at named
      cases named

theorem freePath_eq {files : List StoredFile} {sequence : Nat}
    (free : ∀ stored ∈ files, stored.fileName ≠
      (SstableName.flush 0 sequence).fileName) (fuel : Nat) :
    freePath files fuel sequence = sequence := by
  cases fuel with
  | zero => rfl
  | succ fuel =>
      rw [freePath, if_neg]
      rw [List.contains_iff_mem, List.mem_map]
      intro found
      obtain ⟨stored, member, same⟩ := found
      exact free stored member same

/-- The counter does not wrap. -/
theorem Store.stampEntries_eq {first : Nat}
    {entries : List (String × Value × Bool)}
    (room : first + entries.length ≤ u64Limit) :
    Store.stampEntries first entries = LsmTree.stampEntries first entries := by
  rw [Store.stampEntries, LsmTree.stampEntries]
  refine List.ext_getElem (by simp) fun i bound bound' => ?_
  rw [List.length_mapIdx, List.length_insertionSort] at bound
  rw [List.getElem_mapIdx, List.getElem_mapIdx, Nat.mod_eq_of_lt (by omega)]

theorem TableDirectory.create_files {dir : TableDirectory}
    {stored : StoredFile}
    (free : ∀ other ∈ dir.files, other.fileName ≠ stored.fileName) :
    (dir.create stored).files = dir.files ++ [stored] := by
  rw [TableDirectory.create, List.filter_eq_self.mpr]
  exact fun other member => decide_eq_true (free other member)

/-- A memtable of writable entries is flushed to a table that comes back. -/
theorem Holds.keepable (holds : Holds config store tree contents)
    (room : store.sequenceNumber + 1 + store.active.entryCount < u64Limit)
    (small : (store.active.getAllEntries.map fun entry =>
      16 + entry.1.utf8ByteSize).sum < 2 ^ 32) :
    Keepable (LsmTree.stampEntries (store.sequenceNumber + 1)
      store.active.getAllEntries) := by
  have sorted := store.active.getAllEntries_sorted
  have stamped : ∀ entry ∈ LsmTree.stampEntries (store.sequenceNumber + 1)
      store.active.getAllEntries,
      Writable entry.key entry.value ∧ entry.timestamp < 2 ^ 64 := by
    intro entry member
    obtain ⟨source, -, high⟩ := LsmTree.mem_stampEntries sorted member
    rw [Memtable.getAllEntries_length] at high
    rw [u64Limit] at room
    exact ⟨holds.writable _ _ (Memtable.mem_getAllEntries.mp source).1,
      by omega⟩
  refine ⟨fun entry member => ?_, LsmTree.stampEntries_sorted sorted, ?_,
    fun entry member => (stamped entry member).1.clean⟩
  · exact (stamped entry member).1.storable (stamped entry member).2
  · rw [indexLength_stampEntries]
    exact small

/-- Without files in the way a flush takes the number of the counter. -/
theorem flushedTable_of_free (info : TableInfo) (tree : LsmTree) :
    LsmTree.flushedTable [] info tree =
      ⟨.flush 0 tree.sequenceNumber,
        LsmTree.stampEntries (tree.sequenceNumber + 1)
          tree.active.getAllEntries, info.fileSize, info.createdAt, true⟩ ∧
    LsmTree.sequenceAfterFlush [] tree =
      tree.sequenceNumber + 1 + tree.active.entryCount := by
  refine ⟨rfl, ?_⟩
  rw [LsmTree.sequenceAfterFlush, Memtable.getAllEntries_length]
  rfl

theorem loadSequenceFile_persistSequenceHighWater {dir : TableDirectory}
    {value : Nat} (positive : 0 < value) (small : value < u64Limit) :
    (Store.persistSequenceHighWater value dir).loadSequenceFile =
      some value := by
  rw [Store.persistSequenceHighWater, if_neg (by omega)]
  exact TableDirectory.loadSequenceFile_persistSequenceFile small

theorem persistSequenceHighWater_files (value : Nat) (dir : TableDirectory) :
    (Store.persistSequenceHighWater value dir).files = dir.files := by
  rw [Store.persistSequenceHighWater]
  split <;> rfl

theorem Holds.flush_cases (holds : Holds config store tree contents)
    (room : store.sequenceNumber + 1 + store.active.entryCount < u64Limit)
    (filled : store.active.entryCount > 0)
    (flushed : store.flush config createdAt = .ok after) :
    ∃ table stored,
      createSstable config (SstableName.flush 0 store.sequenceNumber).fileName
          0 createdAt (LsmTree.stampEntries (store.sequenceNumber + 1)
            store.active.getAllEntries) = .ok (table, stored) ∧
      after =
        { active := .new
          immutables := store.immutables
          levels := Function.update store.levels 0 (store.levels 0 ++ [table])
          sequenceNumber := store.sequenceNumber + 1 + store.active.entryCount
          dir := Store.persistSequenceHighWater
            (store.sequenceNumber + 1 + store.active.entryCount)
            (store.dir.create stored) } := by
  have count := store.active.getAllEntries_length
  have first : (store.sequenceNumber + 1) % u64Limit =
      store.sequenceNumber + 1 := Nat.mod_eq_of_lt (by omega)
  have stamps : Store.stampEntries (store.sequenceNumber + 1)
      store.active.getAllEntries =
        LsmTree.stampEntries (store.sequenceNumber + 1)
          store.active.getAllEntries := Store.stampEntries_eq (by omega)
  have length : (LsmTree.stampEntries (store.sequenceNumber + 1)
      store.active.getAllEntries).length = store.active.entryCount := by
    rw [LsmTree.stampEntries_eq store.active.getAllEntries_sorted,
      List.length_mapIdx, count]
  rw [Store.flush, if_pos filled] at flushed
  dsimp only at flushed
  rw [freePath_eq holds.flushName_free, first, stamps, length,
    Nat.mod_eq_of_lt room] at flushed
  obtain ⟨⟨table, stored⟩, created, checked⟩ :=
    Fallible.bind_eq_ok_iff.mp flushed
  obtain ⟨-, -, made⟩ := Fallible.bind_eq_ok_iff.mp checked
  exact ⟨table, stored, created, (Except.ok.inj made).symm⟩

theorem Holds.publish (holds : Holds config store tree contents)
    {entries : List SSTableEntry} (keepable : Keepable entries)
    {written : WrittenTable} {table : LiveTable} {stored : StoredFile}
    (on : LiveOn config (.flush 0 store.sequenceNumber) entries written stored
      table)
    {next : Nat} (above : store.sequenceNumber + entries.length < next)
    (below : next < u64Limit) :
    Holds config
      { active := .new
        immutables := store.immutables
        levels := Function.update store.levels 0 (store.levels 0 ++ [table])
        sequenceNumber := next
        dir := Store.persistSequenceHighWater next (store.dir.create stored) }
      ⟨.new, tree.immutables, LsmTree.publish tree.levels
        (asTable (.flush 0 store.sequenceNumber) entries written), next⟩
      (contents ++ [.whole (.flush 0 store.sequenceNumber) entries
        written]) := by
  have live : LiveOf config table
      (asTable (.flush 0 store.sequenceNumber) entries written) :=
    ⟨_, _, _, _, on, rfl⟩
  have named := on.intact.named
  have free : ∀ other ∈ store.dir.files,
      other.fileName ≠ stored.fileName := by
    rw [named]
    exact holds.flushName_free
  have files : (Store.persistSequenceHighWater next
      (store.dir.create stored)).files = store.dir.files ++ [stored] := by
    rw [persistSequenceHighWater_files, TableDirectory.create_files free]
  have listed : (LsmTree.publish tree.levels
      (asTable (.flush 0 store.sequenceNumber) entries written) 0 ++
        LsmTree.publish tree.levels
          (asTable (.flush 0 store.sequenceNumber) entries written) 1).Perm
      (tree.levels 0 ++ tree.levels 1 ++
        [asTable (.flush 0 store.sequenceNumber) entries written]) := by
    rw [publish_zero, publish_succ, List.append_assoc,
      List.append_assoc (tree.levels 0)]
    exact List.perm_append_comm.append_left _
  constructor
  case active => rfl
  case noneParked => exact holds.noneParked
  case noneParked' => exact holds.noneParked'
  case levels =>
    intro level
    cases level with
    | zero =>
        dsimp only
        rw [Function.update_self, publish_zero]
        exact List.rel_append (holds.levels 0) (.cons live .nil)
    | succ level =>
        dsimp only
        rw [Function.update_of_ne (Nat.succ_ne_zero level), publish_succ]
        exact holds.levels (level + 1)
  case sequence => rfl
  case below => exact below
  case mark =>
    exact loadSequenceFile_persistSequenceHighWater (by omega) below
  case files =>
    change List.Forall₂ _ (Store.persistSequenceHighWater _ _).files _
    rw [files]
    exact List.rel_append holds.files (.cons on.intact .nil)
  case names =>
    change ((Store.persistSequenceHighWater _ _).files.map _).Nodup
    rw [files, List.map_append, List.nodup_append]
    refine ⟨holds.names, List.nodup_singleton _, ?_⟩
    intro name member other there same
    obtain ⟨old, inDir, rfl⟩ := List.mem_map.mp member
    rw [List.map_singleton, List.mem_singleton] at there
    exact free old inDir (same.trans there)
  case tables =>
    rw [List.filterMap_append]
    exact (holds.tables.append_right _).trans listed.symm
  case flushNames =>
    intro name member sequence number
    change sequence < next
    rw [List.filterMap_append, List.mem_append] at member
    rcases member with old | new
    · have less := holds.flushNames name old sequence number
      omega
    · cases List.mem_singleton.mp new
      cases number
      omega
  case flushStamps =>
    intro table' member sequence number
    change _ < next
    rcases List.mem_append.mp (listed.subset member) with old | new
    · have less := holds.flushStamps table' old sequence number
      omega
    · cases List.mem_singleton.mp new
      cases number
      exact above
  case writable =>
    intro key value found
    change Memtable.new.data[key]? = _ at found
    rw [Memtable.new_get] at found
    cases found
  case kept =>
    intro entry member
    obtain ⟨table', there, inTable⟩ := mem_allEntries.mp member
    rcases List.mem_append.mp (listed.subset there) with old | new
    · exact holds.kept entry (mem_allEntries.mpr ⟨table', old, inTable⟩)
    · cases List.mem_singleton.mp new
      exact ⟨keepable.storable entry inTable, keepable.clean entry inTable⟩

theorem Holds.flush
    (isSnappy : IsSnappy config.compressVec config.decompressVec)
    (resilient : config.load.sstable.enableResilientHandling = true)
    (holds : Holds config store tree contents)
    (room : store.sequenceNumber + 1 + store.active.entryCount < u64Limit)
    (small : (store.active.getAllEntries.map fun entry =>
      16 + entry.1.utf8ByteSize).sum < 2 ^ 32)
    (flushed : store.flush config createdAt = .ok after) :
    ∃ info contents', Holds config after
      (tree.flushMemtableInternal [] info .done).1 contents' := by
  by_cases filled : store.active.entryCount > 0
  · have keepable := holds.keepable room small
    obtain ⟨table, stored, created, rfl⟩ :=
      holds.flush_cases room filled flushed
    have fits : (SstableName.flush 0 store.sequenceNumber).Fits :=
      ⟨by decide, holds.below⟩
    obtain ⟨written, on⟩ :=
      createSstable_liveOn isSnappy resilient fits keepable created
    have live : LiveOf config table (asTable _ _ written) :=
      ⟨_, _, _, _, on, rfl⟩
    have length : (LsmTree.stampEntries (store.sequenceNumber + 1)
        store.active.getAllEntries).length = store.active.entryCount := by
      rw [LsmTree.stampEntries_eq store.active.getAllEntries_sorted,
        List.length_mapIdx, Memtable.getAllEntries_length]
    let info : TableInfo := ⟨_, written.metadata.createdAt.toNat,
      (live.wellFormed isSnappy).sized⟩
    refine ⟨info, contents ++ [.whole
        (.flush 0 store.sequenceNumber)
        (LsmTree.stampEntries (store.sequenceNumber + 1)
          store.active.getAllEntries) written], ?_⟩
    have published := holds.publish keepable on
      (by rw [length]; omega) room
    rw [LsmTree.flushMemtableInternal, holds.active, if_pos filled,
      (flushedTable_of_free info _).1, (flushedTable_of_free info _).2,
      holds.sequence, holds.active]
    exact published
  · rw [Store.flush, if_neg filled] at flushed
    cases flushed
    refine ⟨⟨1, 0, Nat.one_pos⟩, contents, ?_⟩
    rw [LsmTree.flushMemtableInternal, holds.active, if_neg filled]
    exact
      { holds with
        active := rfl
        writable := fun key value found => by
          change Memtable.new.data[key]? = _ at found
          rw [Memtable.new_get] at found
          cases found }

/-! ## Starting -/

/-- Files that a start finds beside the tables: torn flushes and compactions,
and files of other names. -/
def LeftOver (config : StoreConfig) (stored : StoredFile)
    (content : FileContent) : Prop :=
  Represents config.compressVec config.hash stored content ∧
    content.table = none ∧ ∀ name sequence, content.name = some name →
      name.flushSequence = some sequence → sequence < u64Limit - 1

/-- The names of the tables are among all names. -/
theorem tableName_mem {table : SSTable}
    (member : table ∈ contents.filterMap FileContent.table) :
    table.name ∈ contents.filterMap FileContent.name := by
  obtain ⟨content, listed, opened⟩ := List.mem_filterMap.mp member
  refine List.mem_filterMap.mpr ⟨content, listed, ?_⟩
  cases content with
  | whole name entries written =>
      cases opened
      rfl
  | torn name => cases opened
  | other => cases opened

theorem loadLevel_perm {files : List SSTable}
    (placed : ∀ table ∈ files, table.name.level ≤ 1) :
    (loadLevel files 0 ++ loadLevel files 1).Perm files := by
  have low : files.filter (fun table => table.name.level = 1) =
      files.filter fun table => !decide (table.name.level = 0) := by
    refine List.filter_congr fun table member => ?_
    have here := placed table member
    rw [← decide_not]
    exact decide_eq_decide.mpr (by omega)
  have sorted := sortLeveledSstables_perm
    (files.filter fun table => table.name.level = 1)
  refine (sorted.append_left _).trans ?_
  rw [low]
  exact List.filter_append_perm _ _

/-- A directory that a start can load: its files stand for the tables of a
tree, and the next number is above everything in them. -/
structure Startable (config : StoreConfig) (dir : TableDirectory)
    (tree : LsmTree) (contents : List FileContent) : Prop where
  invariant : tree.Invariant config.compaction
  readable : ∃ number, dir.loadSequenceFile = some number
  files : List.Forall₂ (Represents config.compressVec config.hash)
    dir.files contents
  names : (dir.files.map (·.fileName)).Nodup
  tables : (contents.filterMap FileContent.table).Perm
    (tree.levels 0 ++ tree.levels 1)
  flushNames : ∀ name ∈ contents.filterMap FileContent.name, ∀ sequence,
    name.flushSequence = some sequence → sequence < u64Limit - 1
  flushStamps : ∀ table ∈ tree.levels 0 ++ tree.levels 1, ∀ sequence,
    table.name.flushSequence = some sequence →
      sequence + table.entries.length < u64Limit - 1
  stamped : ∀ entry ∈ allEntries (tree.levels 0 ++ tree.levels 1),
    entry.timestamp < dir.nextSequence
  kept : ∀ entry ∈ allEntries (tree.levels 0 ++ tree.levels 1),
    entry.Storable ∧ CleanKey entry.key

/-- The names of the tables add nothing to the names of all files. -/
theorem maxFlushSeq_append_names (contents : List FileContent) :
    maxFlushSeq ((contents.filterMap FileContent.table).map (·.name) ++
      contents.filterMap FileContent.name) =
      maxFlushSeq (contents.filterMap FileContent.name) := by
  refine Nat.le_antisymm (HighWater.highest_le fun sequence member => ?_)
    (HighWater.highest_le fun sequence member => ?_)
  · obtain ⟨name, listed, number⟩ := List.mem_filterMap.mp member
    refine HighWater.le_highest (List.mem_filterMap.mpr ⟨name, ?_, number⟩)
    rcases List.mem_append.mp listed with tables | names
    · obtain ⟨table, there, rfl⟩ := List.mem_map.mp tables
      exact tableName_mem there
    · exact names
  · obtain ⟨name, listed, number⟩ := List.mem_filterMap.mp member
    exact HighWater.le_highest (List.mem_filterMap.mpr
      ⟨name, List.mem_append_right _ listed, number⟩)

theorem TableDirectory.le_nextSequence {dir : TableDirectory}
    {number : Nat}
    (read : dir.loadSequenceFile = some number) :
    number ≤ dir.nextSequence := by
  rw [TableDirectory.nextSequence, read]
  exact le_max_right _ _

theorem loadExistingSstables_leaves {dir : TableDirectory} {number : Nat}
    (read : dir.loadSequenceFile = some number) (config : LoadConfig)
    (decompressVec : Bytes → Except String Bytes) :
    (dir.loadExistingSstables config decompressVec).2.files = dir.files ∧
      (dir.loadExistingSstables config decompressVec).2.loadSequenceFile =
        some dir.nextSequence := by
  have least := TableDirectory.le_nextSequence read
  rw [TableDirectory.loadExistingSstables]
  dsimp only
  rw [read, Option.getD_some]
  split
  · exact ⟨rfl, TableDirectory.loadSequenceFile_persistSequenceFile
      TableDirectory.nextSequence_lt⟩
  · refine ⟨rfl, read.trans ?_⟩
    congr 1
    omega

section

variable {dir : TableDirectory} {files left : List StoredFile}
  {leftContents : List FileContent}

/-- The directory of an open engine can be loaded. -/
theorem Holds.startable (holds : Holds config store tree contents)
    (invariant : tree.Invariant config.compaction) :
    Startable config store.dir tree contents where
  invariant := invariant
  readable := ⟨_, holds.mark⟩
  files := holds.files
  names := holds.names
  tables := holds.tables
  flushNames := fun name member sequence number => by
    have less := holds.flushNames name member sequence number
    have below := holds.below
    omega
  flushStamps := fun table member sequence number => by
    have less := holds.flushStamps table member sequence number
    have below := holds.below
    omega
  stamped := fun entry member => by
    have less := invariant.stamped entry member
    rw [holds.sequence] at less
    exact less.trans_le (TableDirectory.le_nextSequence holds.mark)
  kept := holds.kept

namespace Startable

theorem nextSequence_mono {sequence : Option Bytes}
    (isSnappy : IsSnappy config.compressVec config.decompressVec)
    {contents' : List FileContent}
    (represents : List.Forall₂ (Represents config.compressVec config.hash)
      files contents)
    (represents' : List.Forall₂ (Represents config.compressVec config.hash)
      left contents')
    (more : ∀ content ∈ contents, content ∈ contents') :
    (TableDirectory.mk files sequence).nextSequence ≤
      (TableDirectory.mk left sequence).nextSequence := by
  have names : maxFlushSeq (contents.filterMap FileContent.name) ≤
      maxFlushSeq (contents'.filterMap FileContent.name) := by
    refine HighWater.highest_le fun number member => ?_
    obtain ⟨name, listed, flushed⟩ := List.mem_filterMap.mp member
    obtain ⟨content, inFiles, named⟩ := List.mem_filterMap.mp listed
    exact HighWater.le_highest (List.mem_filterMap.mpr ⟨name,
      List.mem_filterMap.mpr ⟨content, more content inFiles, named⟩, flushed⟩)
  have stamps : maxEntryTs (contents.filterMap FileContent.table) ≤
      maxEntryTs (contents'.filterMap FileContent.table) := by
    refine HighWater.highest_le fun number member => ?_
    obtain ⟨table, listed, flushed⟩ := List.mem_filterMap.mp member
    obtain ⟨content, inFiles, opened⟩ := List.mem_filterMap.mp listed
    exact HighWater.le_highest (List.mem_filterMap.mpr ⟨table,
      List.mem_filterMap.mpr ⟨content, more content inFiles, opened⟩,
      flushed⟩)
  have same : (TableDirectory.mk files sequence).loadSequenceFile =
      (TableDirectory.mk left sequence).loadSequenceFile := rfl
  rw [nextSequence_represents isSnappy represents,
    nextSequence_represents isSnappy represents', loadExistingSstables,
    loadExistingSstables, same]
  dsimp only
  omega

/-- The files may be listed in any order, and others beside them. -/
theorem found
    (isSnappy : IsSnappy config.compressVec config.decompressVec)
    (startable : Startable config dir tree contents)
    (leftOver : List.Forall₂ (LeftOver config) left leftContents)
    (found : files.Perm (dir.files ++ left))
    (names : (files.map (·.fileName)).Nodup) :
    ∃ contents', Startable config ⟨files, dir.sequence⟩ tree contents' := by
  obtain ⟨contents', represents, same⟩ := List.perm_comp_forall₂ found
    (List.rel_append startable.files (leftOver.imp fun _ _ here => here.1))
  have none : leftContents.filterMap FileContent.table = [] := by
    refine List.filterMap_eq_nil_iff.mpr fun content member => ?_
    obtain ⟨stored, -, here⟩ := Corresponding.exists_left leftOver member
    exact here.2.1
  refine ⟨contents', ?_⟩
  constructor
  case invariant => exact startable.invariant
  case readable => exact startable.readable
  case files => exact represents
  case names => exact names
  case tables =>
    refine (same.filterMap _).trans ?_
    rw [List.filterMap_append, none, List.append_nil]
    exact startable.tables
  case flushNames =>
    intro name member sequence number
    obtain ⟨content, inFiles, named⟩ := List.mem_filterMap.mp member
    rcases List.mem_append.mp (same.subset inFiles) with old | new
    · exact startable.flushNames name
        (List.mem_filterMap.mpr ⟨content, old, named⟩) sequence number
    · obtain ⟨stored, -, -, -, small⟩ :=
        Corresponding.exists_left leftOver new
      exact small name sequence named number
  case flushStamps => exact startable.flushStamps
  case stamped =>
    intro entry member
    exact (startable.stamped entry member).trans_le
      (nextSequence_mono isSnappy startable.files represents
        fun content listed => same.symm.subset
          (List.mem_append_left _ listed))
  case kept => exact startable.kept

/-- The next number is that of the tables, without an overflow. -/
theorem nextSequence_eq
    (isSnappy : IsSnappy config.compressVec config.decompressVec)
    (startable : Startable config dir tree contents) :
    (loadExistingSstables (contents.filterMap FileContent.name)
      (contents.filterMap FileContent.table) dir.nextSequence).2 =
        dir.nextSequence := by
  have names : maxFlushSeq (contents.filterMap FileContent.name) ≤
      u64Limit - 2 := by
    refine HighWater.highest_le fun sequence member => ?_
    obtain ⟨name, listed, number⟩ := List.mem_filterMap.mp member
    have less := startable.flushNames name listed sequence number
    omega
  have stamps : maxEntryTs (contents.filterMap FileContent.table) ≤
      u64Limit - 2 := by
    refine HighWater.highest_le fun stamp member => ?_
    obtain ⟨table, listed, number⟩ := List.mem_filterMap.mp member
    obtain ⟨sequence, flushed, rfl⟩ := Option.map_eq_some_iff.mp number
    have less := startable.flushStamps table
      (startable.tables.subset listed) sequence flushed
    omega
  have limit : u64Limit = 2 ^ 64 := rfl
  have next : dir.nextSequence =
      min (loadExistingSstables (contents.filterMap FileContent.name)
        (contents.filterMap FileContent.table)
        (dir.loadSequenceFile.getD 0)).2 (u64Limit - 1) :=
    nextSequence_represents isSnappy startable.files
  rw [loadExistingSstables] at next ⊢
  dsimp only at next ⊢
  omega

theorem loaded_perm (startable : Startable config dir tree contents) :
    (loadLevel (contents.filterMap FileContent.table) 0 ++
      loadLevel (contents.filterMap FileContent.table) 1).Perm
        (contents.filterMap FileContent.table) := by
  refine loadLevel_perm fun table member => ?_
  rcases List.mem_append.mp (startable.tables.subset member) with top | low
  · rw [startable.invariant.placed 0 table top]
    exact Nat.zero_le 1
  · rw [startable.invariant.placed 1 table low]

theorem start
    (isSnappy : IsSnappy config.compressVec config.decompressVec)
    (resilient : config.load.sstable.enableResilientHandling = true)
    (startable : Startable config dir tree contents) {active : Memtable}
    (writable : ∀ key value, active.data[key]? = some value →
      Writable key value) :
    Holds config (Store.start config dir active)
      (tree.reopen active (contents.filterMap FileContent.table)
        (contents.filterMap FileContent.name) dir.nextSequence) contents := by
  obtain ⟨number, read⟩ := startable.readable
  obtain ⟨sameFiles, mark⟩ :=
    loadExistingSstables_leaves read config.load config.decompressVec
  have loaded := startable.loaded_perm
  have next := startable.nextSequence_eq isSnappy
  rw [loadExistingSstables] at next
  dsimp only at next
  constructor
  case active => rfl
  case noneParked => rfl
  case noneParked' => rfl
  case levels =>
    intro level
    change List.Forall₂ _ (List.map _ _) (loadLevel _ level)
    rw [List.forall₂_map_left_iff]
    exact (loadedLevel_openedFrom _ isSnappy startable.files level).imp
      fun table list from' => from'.liveOf isSnappy resilient
  case sequence =>
    change max (max (maxFlushSeq _) _ + 1) _ = _
    rw [maxFlushSeq_append_names]
    exact next
  case below => exact TableDirectory.nextSequence_lt
  case mark => exact mark
  case files =>
    rw [Store.start]
    dsimp only
    rw [sameFiles]
    exact startable.files
  case names =>
    rw [Store.start]
    dsimp only
    rw [sameFiles]
    exact startable.names
  case tables => exact loaded.symm
  case flushNames =>
    intro name member number flushed
    have seen : number ≤
        maxFlushSeq (contents.filterMap FileContent.name) :=
      HighWater.le_highest (List.mem_filterMap.mpr ⟨name, member, flushed⟩)
    change number < dir.nextSequence
    omega
  case flushStamps =>
    intro table member number flushed
    have seen : number + table.entries.length ≤
        maxEntryTs (contents.filterMap FileContent.table) :=
      HighWater.le_highest (List.mem_filterMap.mpr
        ⟨table, loaded.subset member, by rw [flushed]; rfl⟩)
    change _ < dir.nextSequence
    omega
  case writable => exact writable
  case kept =>
    intro entry member
    obtain ⟨table, there, inTable⟩ := mem_allEntries.mp member
    exact startable.kept entry (mem_allEntries.mpr
      ⟨table, startable.tables.subset (loaded.subset there), inTable⟩)

end Startable

end

end

end F4kvsLsm
