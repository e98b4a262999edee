import F4kvsLsm.Engine.StoreCompaction

/-!
# Runs of an engine over its files

Puts, deletes, flushes, manual compactions and restarts, in any order, from an
empty directory.  What the operations say about a key is what every read of it
finds in the bytes of the files.
-/

namespace F4kvsLsm

open ByteCodec KeyOrder TableFile Versions

/-- What is read when a memtable lies over some tables. -/
def overlay (active : Memtable) (below : String → Option Value)
    (key : String) : Option Value :=
  match active.data[key]? with
  | some value => value.visible
  | none => below key

/-- A memtable that one table can take: the counter does not reach its end,
and the index keeps to 32 bits. -/
structure FitsTable (store : Store) : Prop where
  room : store.sequenceNumber + 1 + store.active.entryCount < u64Limit
  small : (store.active.getAllEntries.map fun entry =>
    16 + entry.1.utf8ByteSize).sum < 2 ^ 32

/-- A run with what it says about each key now, and what of it is in tables.
Flushes and compactions succeed, and no compaction runs by itself.  A restart
finds the files in any order, beside torn tables and other files, and the log
gives it a memtable. -/
inductive StoreRun (config : StoreConfig) :
    Store → (String → Option Value) → (String → Option Value) → Prop
  | empty : StoreRun config (Store.start config ⟨[], none⟩ .new)
      (fun _ => none) (fun _ => none)
  | put {store : Store} {current durable : String → Option Value}
      (key : String) (value : Value) :
      StoreRun config store current durable → Writable key value →
      StoreRun config (store.put config key value)
        (Function.update current key value.visible) durable
  | delete {store : Store} {current durable : String → Option Value}
      (key : String) :
      StoreRun config store current durable → Writable key .null →
      StoreRun config (store.delete config key)
        (Function.update current key none) durable
  | flush {store after : Store} {current durable : String → Option Value}
      (createdAt : UInt64) :
      StoreRun config store current durable → FitsTable store →
      store.flush config createdAt = .ok after →
      StoreRun config after current current
  | compactAll {store after : Store}
      {current durable : String → Option Value}
      (createdAt : UInt64) (readings : OutputReadings) :
      StoreRun config store current durable → FitsTable store →
      UnusedNames readings 1 0 store.dir →
      store.compactAll config createdAt readings = .ok after →
      StoreRun config after current current
  | restart {store : Store} {current durable : String → Option Value}
      {files left : List StoredFile} {leftContents : List FileContent}
      (active : Memtable) :
      StoreRun config store current durable →
      List.Forall₂ (LeftOver config) left leftContents →
      files.Perm (store.dir.files ++ left) →
      (files.map (·.fileName)).Nodup →
      (∀ key value, active.data[key]? = some value → Writable key value) →
      StoreRun config
        (Store.start config ⟨files, store.dir.sequence⟩ active)
        (overlay active durable) durable

/-! ## Reads of the tree -/

section

variable {config : StoreConfig} {store after : Store} {tree tree' : LsmTree}
  {contents : List FileContent} {readings : OutputReadings}
  {createdAt : UInt64} {current durable : String → Option Value}

theorem LsmTree.get_eq_overlay (noneParked : tree.immutables = [])
    (levelCount : Nat) (key : String) :
    tree.get levelCount key =
      overlay tree.active (getFromSstables levelCount tree.levels) key := by
  rw [LsmTree.get_eq, noneParked, memtableValue_cons, overlay]
  cases tree.active.data[key]? <;> rfl

/-- Without writes the tables are read. -/
theorem overlay_new (below : String → Option Value) :
    overlay .new below = below := by
  funext key
  rw [overlay, Memtable.new_get]

theorem overlay_put (active : Memtable) (below : String → Option Value)
    (jsonLen : SerdeJsonValue → Nat) (key : String) (value : Value) :
    overlay (active.put jsonLen key value) below =
      Function.update (overlay active below) key value.visible := by
  funext other
  rw [overlay, Memtable.put_get]
  by_cases same : key = other
  · rw [if_pos same, ← same, Function.update_self]
  · rw [if_neg same, Function.update_of_ne (Ne.symm same)]
    rfl

theorem overlay_delete (active : Memtable) (below : String → Option Value)
    (jsonLen : SerdeJsonValue → Nat) (key : String) :
    overlay (active.delete jsonLen key) below =
      Function.update (overlay active below) key none := by
  have null := overlay_put active below jsonLen key .null
  rw [show Value.visible .null = none from rfl] at null
  rw [← null]
  funext other
  rw [overlay, overlay, Memtable.delete_get, Memtable.put_get]

/-- Two trees with the same entries show the same. -/
theorem getFromSstables_eq_of_entries {compaction : CompactionConfig}
    (levels : 0 < compaction.levelCount) (invariant : tree.Invariant compaction)
    (invariant' : tree'.Invariant compaction)
    (same : ∀ entry,
      entry ∈ allEntries (tree'.levels 0 ++ tree'.levels 1) ↔
        entry ∈ allEntries (tree.levels 0 ++ tree.levels 1)) (key : String) :
    getFromSstables compaction.levelCount tree'.levels key =
      getFromSstables compaction.levelCount tree.levels key := by
  have count : compaction.levelCount = compaction.levelCount - 1 + 1 := by
    omega
  rw [invariant.getFromSstables_eq count, invariant'.getFromSstables_eq count,
    ← invariant.newestVersion_eq, ← invariant'.newestVersion_eq,
    LsmTree.newestVersion, LsmTree.newestVersion,
    latest_congr invariant.distinctBoth same]

theorem mem_allEntries_perm {files files' : List SSTable}
    (same : files.Perm files') {entry : SSTableEntry} :
    entry ∈ allEntries files ↔ entry ∈ allEntries files' := by
  rw [mem_allEntries, mem_allEntries]
  exact exists_congr fun table => and_congr_left fun _ => same.mem_iff

theorem Holds.reads
    (isSnappy : IsSnappy config.compressVec config.decompressVec)
    (holds : Holds config store tree contents)
    {blockCache : Option BlockCache}
    (fits : ∀ level, ∀ table ∈ store.levels level,
      Intact.CacheFits config.compressVec blockCache table.handle)
    (key : String) :
    store.get config blockCache key =
        tree.get config.compaction.levelCount key ∧
      store.tryGetSync config blockCache key =
        .ok (tree.get config.compaction.levelCount key) := by
  have alike : ∀ level, List.Forall₂ (Alike config.decompressVec blockCache)
      (store.loaded.levels level) (tree.levels level) := by
    intro level
    change List.Forall₂ _ (List.map _ _) _
    rw [List.forall₂_map_left_iff]
    exact (Corresponding.with_left (fits level) (holds.levels level)).imp
      fun _ _ here => here.2.alike isSnappy here.1
  have tables := getFromSstables_alike alike config.compaction.levelCount key
  rw [Store.get, Store.tryGetSync, LsmTree.get, holds.noneParked,
    holds.noneParked', holds.active]
  cases getFromMemtables [store.active] key with
  | found value => exact ⟨rfl, rfl⟩
  | tombstone => exact ⟨rfl, rfl⟩
  | missing => exact tables

/-! ## What a run keeps -/

/-- The files stand for a tree that says about each key what the run says. -/
structure Follows (config : StoreConfig) (store : Store) (tree : LsmTree)
    (contents : List FileContent) (current durable : String → Option Value) :
    Prop where
  holds : Holds config store tree contents
  invariant : tree.Invariant config.compaction
  tables : durable =
    getFromSstables config.compaction.levelCount tree.levels
  memtable : current = overlay tree.active durable

theorem Follows.reads
    (isSnappy : IsSnappy config.compressVec config.decompressVec)
    (follows : Follows config store tree contents current durable)
    {blockCache : Option BlockCache}
    (fits : ∀ level, ∀ table ∈ store.levels level,
      Intact.CacheFits config.compressVec blockCache table.handle)
    (key : String) :
    store.get config blockCache key = current key ∧
      store.tryGetSync config blockCache key = .ok (current key) := by
  have reads := follows.holds.reads isSnappy fits key
  rw [LsmTree.get_eq_overlay follows.holds.noneParked', ← follows.tables,
    ← follows.memtable] at reads
  exact reads

theorem Holds.nothingHeld (holds : Holds config store tree contents) :
    ∀ level, ∀ table ∈ store.levels level,
      Intact.CacheFits config.compressVec none table.handle := by
  intro level table member
  obtain ⟨list, -, live⟩ :=
    Corresponding.exists_right (holds.levels level) member
  exact live.nothingHeld

theorem Follows.put
    (follows : Follows config store tree contents current durable)
    {key : String} {value : Value} (writable : Writable key value) :
    Follows config (store.put config key value)
      (tree.put config.compaction.jsonLen key value) contents
      (Function.update current key value.visible) durable := by
  obtain ⟨holds, invariant, tables, rfl⟩ := follows
  exact ⟨holds.put writable, invariant.advance _ _ le_rfl, tables,
    (overlay_put _ _ _ _ _).symm⟩

theorem Follows.delete
    (follows : Follows config store tree contents current durable)
    {key : String} (writable : Writable key .null) :
    Follows config (store.delete config key)
      (tree.delete config.compaction.jsonLen key) contents
      (Function.update current key none) durable := by
  obtain ⟨holds, invariant, tables, rfl⟩ := follows
  exact ⟨holds.delete writable, invariant.advance _ _ le_rfl, tables,
    (overlay_delete _ _ _ _).symm⟩

/-- A flush changes no read, and then all that was written is in tables. -/
theorem Follows.flush
    (isSnappy : IsSnappy config.compressVec config.decompressVec)
    (resilient : config.load.sstable.enableResilientHandling = true)
    (levels : 0 < config.compaction.levelCount)
    (follows : Follows config store tree contents current durable)
    (fits : FitsTable store)
    (flushed : store.flush config createdAt = .ok after) :
    ∃ info contents', Follows config after
      (tree.flushMemtableInternal [] info .done).1 contents' current
      current := by
  obtain ⟨holds, invariant, rfl, rfl⟩ := follows
  obtain ⟨info, contents', after'⟩ :=
    holds.flush isSnappy resilient fits.room fits.small flushed
  have empty : (tree.flushMemtableInternal [] info .done).1.active = .new :=
    LsmTree.flushMemtableInternal_active _ _ _ _
  have tables : overlay tree.active (getFromSstables
      config.compaction.levelCount tree.levels) =
        getFromSstables config.compaction.levelCount
          (tree.flushMemtableInternal [] info .done).1.levels := by
    funext key
    have same := invariant.get_flush levels holds.noneParked' [] info key
    rw [LsmTree.get_eq_overlay after'.noneParked', empty, overlay_new,
      LsmTree.get_eq_overlay holds.noneParked'] at same
    exact same.symm
  refine ⟨info, contents', after', invariant.flush [] info .done, tables, ?_⟩
  rw [empty, overlay_new]

theorem Holds.unusedNames_flush (holds : Holds config store tree contents)
    (fits : FitsTable store) {level : Nat}
    (names : UnusedNames readings level 0 store.dir)
    (flushed : store.flush config createdAt = .ok after) :
    UnusedNames readings level 0 after.dir := by
  by_cases filled : store.active.entryCount > 0
  · obtain ⟨table, stored, created, rfl⟩ :=
      holds.flush_cases fits.room filled flushed
    have named : stored.fileName =
        (SstableName.flush 0 store.sequenceNumber).fileName := by
      obtain ⟨wrote, -, made⟩ := Fallible.bind_eq_ok_iff.mp created
      cases wrote with
      | none => cases made
      | some written =>
          dsimp only at made
          split at made
          · cases made
            rfl
          · cases made
    refine ⟨names.distinct, fun i _ other member same => ?_⟩
    dsimp only at member
    rw [persistSequenceHighWater_files, TableDirectory.create_files
      (by rw [named]; exact holds.flushName_free)] at member
    rcases List.mem_append.mp member with old | new
    · exact names.unused i (Nat.zero_le i) other old same
    · rw [List.mem_singleton.mp new, named] at same
      exact fileName_flush_ne _ _ _ _ _ same
  · rw [Store.flush, if_neg filled] at flushed
    cases flushed
    exact names

theorem Follows.compactAll
    (isSnappy : IsSnappy config.compressVec config.decompressVec)
    (resilient : config.load.sstable.enableResilientHandling = true)
    (levels : 0 < config.compaction.levelCount)
    (target : config.compaction.targetSize < 2 ^ 32)
    (follows : Follows config store tree contents current durable)
    (fits : FitsTable store) (names : UnusedNames readings 1 0 store.dir)
    (compacted : store.compactAll config createdAt readings = .ok after) :
    ∃ tree' contents', Follows config after tree' contents' current
      current := by
  obtain ⟨flushed, done, merged⟩ := Fallible.bind_eq_ok_iff.mp compacted
  obtain ⟨info, contents', follows'⟩ :=
    follows.flush isSnappy resilient levels fits done
  have empty : (tree.flushMemtableInternal [] info .done).1.active = .new :=
    LsmTree.flushMemtableInternal_active _ _ _ _
  obtain ⟨output, levels', contents'', whole, fresh, holds⟩ :=
    follows'.holds.compactTables isSnappy resilient target follows'.invariant
      (follows.holds.unusedNames_flush fits names done) merged
  have same : current =
      getFromSstables config.compaction.levelCount levels' := by
    rw [follows'.tables]
    funext key
    exact (follows'.invariant.getFromSstables_compactAll whole key).symm
  refine ⟨_, contents'', holds, follows'.invariant.compactAll fresh whole,
    same, ?_⟩
  rw [empty, overlay_new]

/-- A start reads the tables, under the memtable of the log. -/
theorem Startable.follows
    (isSnappy : IsSnappy config.compressVec config.decompressVec)
    (resilient : config.load.sstable.enableResilientHandling = true)
    (levels : 0 < config.compaction.levelCount) {dir : TableDirectory}
    (startable : Startable config dir tree contents) {active : Memtable}
    (writable : ∀ key value, active.data[key]? = some value →
      Writable key value) :
    ∃ tree', Follows config (Store.start config dir active) tree' contents
      (overlay active
        (getFromSstables config.compaction.levelCount tree.levels))
      (getFromSstables config.compaction.levelCount tree.levels) := by
  have entries := @mem_allEntries_perm _ _ startable.tables
  have reopened := startable.invariant.reopen active
    (contents.filterMap FileContent.name) startable.tables.subperm
    fun entry member => startable.stamped entry (entries.mp member)
  refine ⟨_, startable.start isSnappy resilient writable, reopened, ?_, rfl⟩
  funext key
  exact (getFromSstables_eq_of_entries levels startable.invariant reopened
    (fun entry => mem_allEntries_perm
      (startable.loaded_perm.trans startable.tables)) key).symm

/-- A restart finds what is in the tables, under the memtable of the log. -/
theorem Follows.restart
    (isSnappy : IsSnappy config.compressVec config.decompressVec)
    (resilient : config.load.sstable.enableResilientHandling = true)
    (levels : 0 < config.compaction.levelCount)
    (follows : Follows config store tree contents current durable)
    {files left : List StoredFile} {leftContents : List FileContent}
    (leftOver : List.Forall₂ (LeftOver config) left leftContents)
    (found : files.Perm (store.dir.files ++ left))
    (names : (files.map (·.fileName)).Nodup) {active : Memtable}
    (writable : ∀ key value, active.data[key]? = some value →
      Writable key value) :
    ∃ tree' contents', Follows config
      (Store.start config ⟨files, store.dir.sequence⟩ active) tree' contents'
      (overlay active durable) durable := by
  obtain ⟨holds, invariant, rfl, -⟩ := follows
  obtain ⟨contents', startable⟩ :=
    (holds.startable invariant).found isSnappy leftOver found names
  obtain ⟨tree', started⟩ :=
    startable.follows isSnappy resilient levels writable
  exact ⟨tree', contents', started⟩

/-- Nothing is read without tables. -/
theorem getFromSstables_empty
    (levels : 0 < config.compaction.levelCount) :
    getFromSstables config.compaction.levelCount LsmTree.empty.levels =
      fun _ => none := by
  have count : config.compaction.levelCount =
      config.compaction.levelCount - 1 + 1 := by omega
  funext key
  rw [(LsmTree.empty_invariant config.compaction).getFromSstables_eq count]
  rfl

/-- An empty directory can be loaded. -/
theorem startable_empty : Startable config ⟨[], none⟩ .empty [] where
  invariant := LsmTree.empty_invariant config.compaction
  readable := ⟨0, rfl⟩
  files := .nil
  names := List.nodup_nil
  tables := .nil
  flushNames := fun _ member => by cases member
  flushStamps := fun _ member => by cases member
  stamped := fun _ member => by cases member
  kept := fun _ member => by cases member

theorem follows_empty
    (isSnappy : IsSnappy config.compressVec config.decompressVec)
    (resilient : config.load.sstable.enableResilientHandling = true)
    (levels : 0 < config.compaction.levelCount) :
    ∃ tree contents, Follows config (Store.start config ⟨[], none⟩ .new) tree
      contents (fun _ => none) (fun _ => none) := by
  have writable : ∀ key value, Memtable.new.data[key]? = some value →
      Writable key value := by
    intro key value found
    rw [Memtable.new_get] at found
    cases found
  obtain ⟨tree, follows⟩ :=
    startable_empty.follows isSnappy resilient levels writable
  rw [overlay_new, getFromSstables_empty levels] at follows
  exact ⟨tree, [], follows⟩

/-- The files of every run stand for a tree that says what the run says. -/
theorem StoreRun.follows
    (isSnappy : IsSnappy config.compressVec config.decompressVec)
    (resilient : config.load.sstable.enableResilientHandling = true)
    (levels : 0 < config.compaction.levelCount)
    (target : config.compaction.targetSize < 2 ^ 32)
    (run : StoreRun config store current durable) :
    ∃ tree contents, Follows config store tree contents current durable := by
  induction run with
  | empty => exact follows_empty isSnappy resilient levels
  | put key value _ writable inductionHypothesis =>
      obtain ⟨tree, contents, follows⟩ := inductionHypothesis
      exact ⟨_, contents, follows.put writable⟩
  | delete key _ writable inductionHypothesis =>
      obtain ⟨tree, contents, follows⟩ := inductionHypothesis
      exact ⟨_, contents, follows.delete writable⟩
  | flush createdAt _ fits flushed inductionHypothesis =>
      obtain ⟨tree, contents, follows⟩ := inductionHypothesis
      obtain ⟨info, contents', after⟩ :=
        follows.flush isSnappy resilient levels fits flushed
      exact ⟨_, contents', after⟩
  | compactAll createdAt readings _ fits names compacted
      inductionHypothesis =>
      obtain ⟨tree, contents, follows⟩ := inductionHypothesis
      exact follows.compactAll isSnappy resilient levels target fits names
        compacted
  | restart active _ leftOver found names writable inductionHypothesis =>
      obtain ⟨tree, contents, follows⟩ := inductionHypothesis
      exact follows.restart isSnappy resilient levels leftOver found names
        writable

end

/-- In every run, whatever blocks are held in memory, both reads of every key
find in the files what the operations say about it; and what a restart at any
time would find is what was in tables. -/
theorem store_reads_what_was_written {config : StoreConfig}
    (isSnappy : IsSnappy config.compressVec config.decompressVec)
    (resilient : config.load.sstable.enableResilientHandling = true)
    (levels : 0 < config.compaction.levelCount)
    (target : config.compaction.targetSize < 2 ^ 32)
    {store : Store} {current durable : String → Option Value}
    (run : StoreRun config store current durable)
    {blockCache : Option BlockCache}
    (fits : ∀ level, ∀ table ∈ store.levels level,
      Intact.CacheFits config.compressVec blockCache table.handle)
    (key : String) :
    store.get config blockCache key = current key ∧
      store.tryGetSync config blockCache key = .ok (current key) ∧
      (Store.start config store.dir .new).get config none key =
        durable key := by
  obtain ⟨tree, contents, follows⟩ :=
    run.follows isSnappy resilient levels target
  have again : StoreRun config (Store.start config store.dir .new)
      (overlay .new durable) durable :=
    run.restart .new .nil (List.Perm.of_eq (List.append_nil _).symm)
      follows.holds.names fun other value found => by
        rw [Memtable.new_get] at found
        cases found
  obtain ⟨tree', contents', follows'⟩ :=
    again.follows isSnappy resilient levels target
  have reads := follows.reads isSnappy fits key
  have reads' := follows'.reads isSnappy follows'.holds.nothingHeld key
  rw [overlay_new] at reads'
  exact ⟨reads.1, reads.2, reads'.1⟩

/-- A live entry and a tombstone, with the stamps of a first flush. -/
def flushedEntries : List SSTableEntry :=
  [⟨"a", .string "x", 2, false⟩, ⟨"b", .null, 3, true⟩]

def flushedBlock : Bytes :=
  [69, 20, 31, 0, 0, 0, 1, 0, 9, 1, 0, 97, 1, 7, 17, 13, 4, 120, 2, 1, 14, 1,
   1, 16, 100, 147, 143, 57, 22, 29, 39, 68, 98, 7, 0, 0, 0, 3, 0, 0, 0, 0, 0,
   0, 0, 1, 180, 29, 2, 115]

/-- Their index is that of the two entries. -/
def flushedBook : List (Bytes × Bytes) :=
  [(flushedEntries.flatMap framedEntry, flushedBlock),
    (rawIndex, compressedIndex)]

def smallStore : StoreConfig where
  load := ⟨"data", ⟨3, true⟩, 8⟩
  compaction := leveledConfig
  compressVec := compressBy flushedBook
  decompressVec := decompressBy flushedBook
  hash := fun key i => key.length + i

/-- A put and a deletion in a new engine. -/
def twoWrites : Store :=
  ((Store.start smallStore ⟨[], none⟩ .new).put smallStore "a"
    (.string "x")).delete smallStore "b"

theorem twoWrites_run : ∃ current, current "a" = some (.string "x") ∧
    StoreRun smallStore twoWrites current fun _ => none := by
  refine ⟨_, ?_, (StoreRun.empty.put "a" (.string "x") ?_).delete "b" ?_⟩
  · rw [Function.update_of_ne (by decide), Function.update_self]
    rfl
  · exact ⟨⟨by decide, by decide⟩, rfl, by decide⟩
  · exact ⟨⟨by decide, by decide⟩, rfl, by decide⟩

/-- The value is read after a flush, and after a start on its files. -/
theorem twoWrites_are_read : ∃ after,
    twoWrites.flush smallStore 1 = .ok after ∧
      after.get smallStore none "a" = some (.string "x") ∧
      (Store.start smallStore after.dir .new).get smallStore none "a" =
        some (.string "x") := by
  obtain ⟨current, said, run⟩ := twoWrites_run
  have ran : (twoWrites.flush smallStore 1).toOption.isSome = true := by
    decide +kernel
  obtain ⟨after, found⟩ := Option.isSome_iff_exists.mp ran
  have flushed := Fallible.toOption_eq_some_iff.mp found
  have fits : FitsTable twoWrites := ⟨by decide +kernel, by decide +kernel⟩
  have isSnappy : IsSnappy smallStore.compressVec smallStore.decompressVec :=
    compressBy_isSnappy (by decide +kernel)
  have levels : 0 < smallStore.compaction.levelCount := by decide
  have target : smallStore.compaction.targetSize < 2 ^ 32 := by decide
  obtain ⟨tree, contents, follows⟩ :=
    (run.flush 1 fits flushed).follows isSnappy rfl levels target
  obtain ⟨now, -, again⟩ := store_reads_what_was_written isSnappy rfl levels
    target (run.flush 1 fits flushed) follows.holds.nothingHeld "a"
  rw [said] at now again
  exact ⟨after, flushed, now, again⟩

end F4kvsLsm
