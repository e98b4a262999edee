import F4kvsLsm.Engine.CachingReads

/-!
# Runs of an engine whose reads keep blocks in memory

Reads are steps of a run, and the last blocks and the block cache go from one
read to the next, over flushes and compactions; a start begins with empty ones.
Names of files that were unlinked are not used again before the next start, so
what was kept of an old file is never taken for a part of a new one.
-/

namespace F4kvsLsm

open ByteCodec KeyOrder TableFile Versions

/-- The names of the tables of the live map. -/
def Store.tableNames (store : Store) : Set String :=
  {name | ∃ level, ∃ table ∈ store.levels level, table.fileName = name}

/-- A run with what the reads have in memory, and with the names that the
tables have had since the start.  The clock readings of a compaction give names
that are neither in the directory nor among these. -/
inductive CachingRun (config : StoreConfig) (maxSize : Nat) :
    Store → SharedMemory String → Set String →
      (String → Option Value) → (String → Option Value) → Prop
  | empty :
      CachingRun config maxSize (Store.start config ⟨[], none⟩ .new)
        (.new maxSize) ∅ (fun _ => none) (fun _ => none)
  | put {store : Store} {shared : SharedMemory String} {used : Set String}
      {current durable : String → Option Value}
      (key : String) (value : Value) :
      CachingRun config maxSize store shared used current durable →
      Writable key value →
      CachingRun config maxSize (store.put config key value) shared used
        (Function.update current key value.visible) durable
  | delete {store : Store} {shared : SharedMemory String} {used : Set String}
      {current durable : String → Option Value} (key : String) :
      CachingRun config maxSize store shared used current durable →
      Writable key .null →
      CachingRun config maxSize (store.delete config key) shared used
        (Function.update current key none) durable
  | get {store : Store} {shared : SharedMemory String} {used : Set String}
      {current durable : String → Option Value} (key : String) :
      CachingRun config maxSize store shared used current durable →
      CachingRun config maxSize store (store.getCaching config key shared).2
        used current durable
  | tryGetSync {store : Store} {shared : SharedMemory String}
      {used : Set String} {current durable : String → Option Value}
      (key : String) :
      CachingRun config maxSize store shared used current durable →
      CachingRun config maxSize store
        (store.tryGetSyncCaching config key shared).2 used current durable
  | flush {store after : Store} {shared : SharedMemory String}
      {used : Set String} {current durable : String → Option Value}
      (createdAt : UInt64) :
      CachingRun config maxSize store shared used current durable →
      FitsTable store → store.flush config createdAt = .ok after →
      CachingRun config maxSize after shared (used ∪ after.tableNames)
        current current
  | compactAll {store after : Store} {shared : SharedMemory String}
      {used : Set String} {current durable : String → Option Value}
      (createdAt : UInt64) (readings : OutputReadings) :
      CachingRun config maxSize store shared used current durable →
      FitsTable store → UnusedNames readings 1 0 store.dir →
      (∀ i, (readings.name 1 i).fileName ∉ used) →
      store.compactAll config createdAt readings = .ok after →
      CachingRun config maxSize after shared (used ∪ after.tableNames)
        current current
  | restart {store : Store} {shared : SharedMemory String}
      {used : Set String} {current durable : String → Option Value}
      {files left : List StoredFile} {leftContents : List FileContent}
      (active : Memtable) :
      CachingRun config maxSize store shared used current durable →
      List.Forall₂ (LeftOver config) left leftContents →
      files.Perm (store.dir.files ++ left) →
      (files.map (·.fileName)).Nodup →
      (∀ key value, active.data[key]? = some value → Writable key value) →
      CachingRun config maxSize
        (Store.start config ⟨files, store.dir.sequence⟩ active) (.new maxSize)
        (Store.start config ⟨files, store.dir.sequence⟩ active).tableNames
        (overlay active durable) durable

section

variable {config : StoreConfig} {maxSize : Nat} {store after : Store}
  {tree tree' : LsmTree} {contents contents' : List FileContent}
  {shared : SharedMemory String} {used : Set String}
  {seen seen' : Set SstableFile} {readings : OutputReadings}
  {createdAt : UInt64} {current durable : String → Option Value}
  {level : Nat} {table : LiveTable}

/-- What the reads keep is no part of what a run says. -/
theorem CachingRun.storeRun
    (run : CachingRun config maxSize store shared used current durable) :
    StoreRun config store current durable := by
  induction run with
  | empty => exact .empty
  | put key value _ writable inductionHypothesis =>
      exact inductionHypothesis.put key value writable
  | delete key _ writable inductionHypothesis =>
      exact inductionHypothesis.delete key writable
  | get key _ inductionHypothesis => exact inductionHypothesis
  | tryGetSync key _ inductionHypothesis => exact inductionHypothesis
  | flush createdAt _ fits flushed inductionHypothesis =>
      exact inductionHypothesis.flush createdAt fits flushed
  | compactAll createdAt readings _ fits names _ compacted
      inductionHypothesis =>
      exact inductionHypothesis.compactAll createdAt readings fits names
        compacted
  | restart active _ leftOver found names writable inductionHypothesis =>
      exact inductionHypothesis.restart active leftOver found names writable

/-! ## Names and paths of live tables -/

/-- The handle of a table has the path of its file. -/
def LiveTable.Placed (config : StoreConfig) (table : LiveTable) : Prop :=
  table.handle.path = config.load.dataDir ++ "/" ++ table.fileName

theorem createSstable_placed {fileName : String} {level createdAt : UInt64}
    {entries : List SSTableEntry} {stored : StoredFile}
    (created : createSstable config fileName level createdAt entries =
      .ok (table, stored)) :
    table.Placed config ∧ table.fileName = fileName := by
  obtain ⟨wrote, -, made⟩ := Fallible.bind_eq_ok_iff.mp created
  cases wrote with
  | none => cases made
  | some written =>
      dsimp only at made
      split at made
      · cases made
        exact ⟨rfl, rfl⟩
      · cases made

theorem createNewSstables_placed {level index : Nat}
    {runs : List (List SSTableEntry)} {dir dir' : TableDirectory}
    {tables : List LiveTable}
    (created : Store.createNewSstables config level readings index runs dir =
      .ok (tables, dir')) :
    ∀ table ∈ tables, table.Placed config ∧
      ∃ i, table.fileName = (readings.name level i).fileName := by
  induction runs generalizing index dir tables with
  | nil =>
      cases created
      exact fun table member => absurd member List.not_mem_nil
  | cons run rest inductionHypothesis =>
      obtain ⟨⟨first, stored⟩, one, behind⟩ :=
        Fallible.bind_eq_ok_iff.mp created
      obtain ⟨⟨others, dir''⟩, more, made⟩ :=
        Fallible.bind_eq_ok_iff.mp behind
      cases made
      intro table member
      rcases List.mem_cons.mp member with rfl | later
      · obtain ⟨placed, named⟩ := createSstable_placed one
        exact ⟨placed, index, named⟩
      · exact inductionHypothesis more table later

theorem Holds.flush_tables (holds : Holds config store tree contents)
    (fits : FitsTable store)
    (flushed : store.flush config createdAt = .ok after) :
    store.sequenceNumber ≤ after.sequenceNumber ∧
      ∀ level, ∀ table ∈ after.levels level,
        table ∈ store.levels level ∨ table.Placed config ∧ table.fileName =
          (SstableName.flush 0 store.sequenceNumber).fileName := by
  by_cases filled : store.active.entryCount > 0
  · obtain ⟨new, stored, created, rfl⟩ :=
      holds.flush_cases fits.room filled flushed
    refine ⟨by dsimp only; omega, fun level table member => ?_⟩
    cases level with
    | zero =>
        dsimp only at member
        rw [Function.update_self, List.mem_append, List.mem_singleton]
          at member
        rcases member with old | rfl
        · exact Or.inl old
        · exact Or.inr (createSstable_placed created)
    | succ level =>
        dsimp only at member
        rw [Function.update_of_ne (Nat.succ_ne_zero level)] at member
        exact Or.inl member
  · rw [Store.flush, if_neg filled] at flushed
    cases flushed
    exact ⟨le_rfl, fun _ _ member => Or.inl member⟩

/-- A compaction adds its outputs. -/
theorem Holds.compactTables_tables
    (isSnappy : IsSnappy config.compressVec config.decompressVec)
    (holds : Holds config store tree contents)
    (invariant : tree.Invariant config.compaction)
    (compacted : store.compactTables config readings = .ok after) :
    after.sequenceNumber = store.sequenceNumber ∧
      ∀ level, ∀ table ∈ after.levels level,
        table ∈ store.levels level ∨ table.Placed config ∧
          ∃ i, table.fileName = (readings.name 1 i).fileName := by
  rcases holds.compactTables_cases isSnappy invariant compacted with
    same | ⟨outputs, dir, created, rfl, -⟩
  · rw [same.1]
    exact ⟨rfl, fun _ _ member => Or.inl member⟩
  · refine ⟨rfl, fun level table member => ?_⟩
    dsimp only at member
    by_cases one : level = 1
    · rw [one, Function.update_self] at member
      exact Or.inr (createNewSstables_placed created table
        ((List.mem_insertionSort _).mp member))
    · rw [Function.update_of_ne one] at member
      by_cases zero : level = 0
      · rw [zero, Function.update_self] at member
        exact absurd member List.not_mem_nil
      · rw [Function.update_of_ne zero] at member
        exact Or.inl member

theorem Represents.tableNames_sublist {files : List StoredFile}
    (represents : List.Forall₂ (Represents config.compressVec config.hash)
      files contents) :
    ((contents.filterMap FileContent.table).map (·.name.fileName)).Sublist
      (files.map (·.fileName)) := by
  induction represents with
  | nil => exact List.Sublist.refl _
  | @cons stored content _ _ here _ inductionHypothesis =>
      cases content with
      | whole name entries written =>
          have intact : Intact config.compressVec config.hash name entries
            written stored := here
          rw [List.map_cons, intact.named]
          exact inductionHypothesis.cons_cons _
      | torn name => exact inductionHypothesis.cons _
      | other => exact inductionHypothesis.cons _

theorem Holds.live_mem (holds : Holds config store tree contents)
    (invariant : tree.Invariant config.compaction)
    (member : table ∈ store.levels level) :
    table ∈ store.levels 0 ++ store.levels 1 := by
  match level with
  | 0 => exact List.mem_append_left _ member
  | 1 => exact List.mem_append_right _ member
  | level + 2 =>
      have none := holds.levels (level + 2)
      rw [invariant.above level, List.forall₂_nil_right_iff] at none
      rw [none] at member
      exact absurd member List.not_mem_nil

/-- Tables of the live map are told apart by their names. -/
theorem Holds.eq_of_fileName (holds : Holds config store tree contents)
    (invariant : tree.Invariant config.compaction) {level' : Nat}
    {table' : LiveTable} (member : table ∈ store.levels level)
    (member' : table' ∈ store.levels level')
    (same : table.fileName = table'.fileName) : table = table' := by
  have live := List.rel_append (holds.levels 0) (holds.levels 1)
  have names : (store.levels 0 ++ store.levels 1).map (·.fileName) =
      (tree.levels 0 ++ tree.levels 1).map (·.name.fileName) := by
    refine List.forall₂_eq_eq_eq ▸ ?_
    rw [List.forall₂_map_left_iff, List.forall₂_map_right_iff]
    exact live.imp fun _ _ here => here.fileName_eq
  have apart : ((store.levels 0 ++ store.levels 1).map
      (·.fileName)).Nodup := by
    rw [names]
    exact (holds.tables.map _).nodup_iff.mp
      (holds.names.sublist (Represents.tableNames_sublist holds.files))
  exact List.inj_on_of_nodup_map apart (holds.live_mem invariant member)
    (holds.live_mem invariant member') same

/-- The number of a flush in the name of a live table is below the counter. -/
theorem Holds.live_number (holds : Holds config store tree contents)
    (invariant : tree.Invariant config.compaction)
    (member : table ∈ store.levels level) {sequence : Nat}
    (number : parseSstableFlushSequenceFromFilename table.fileName =
      some sequence) : sequence < store.sequenceNumber := by
  obtain ⟨list, listed, name, entries, written, stored, on, rfl⟩ :=
    Corresponding.exists_right
      (List.rel_append (holds.levels 0) (holds.levels 1))
      (holds.live_mem invariant member)
  rw [on.fileName, on.intact.named,
    parseSstableFlushSequenceFromFilename_fileName on.intact.fits] at number
  have less := holds.flushStamps _ listed sequence number
  omega

theorem Holds.live_extension (holds : Holds config store tree contents)
    (member : table ∈ store.levels level) :
    sstExtension <:+ table.fileName.toList := by
  obtain ⟨list, -, live⟩ :=
    Corresponding.exists_right (holds.levels level) member
  rw [live.fileName_eq]
  exact sstExtension_fileName _

/-! ## What the memory stands for -/

/-- The tables that have been live since the start lie under paths of their
own and have used names, and what is in memory is what their files give. -/
structure MemoryFits (config : StoreConfig) (store : Store)
    (shared : SharedMemory String) (used : Set String)
    (seen : Set SstableFile) : Prop where
  live : ∀ level, ∀ table ∈ store.levels level,
    table.handle ∈ seen ∧ table.Placed config
  paths : TablePaths (Among seen)
  known : ∀ table ∈ seen, ∃ name ∈ used,
    table.path = config.load.dataDir ++ "/" ++ name
  holds : shared.Fits config.decompressVec seen
  numbers : ∀ name ∈ used, ∀ sequence,
    parseSstableFlushSequenceFromFilename name = some sequence →
      sequence < store.sequenceNumber

theorem SharedMemory.Fits.more
    {decompressVec : Bytes → Except String Bytes}
    (fits : shared.Fits decompressVec seen) (sub : seen ⊆ seen')
    (paths : TablePaths (Among seen')) : shared.Fits decompressVec seen' := by
  constructor
  · intro table offset data found
    by_cases old : ∃ other ∈ seen, other.path = table.1.path
    · obtain ⟨other, member, same⟩ := old
      cases paths.apart ⟨other, sub member⟩ table same
      exact fits.blocks ⟨other, member⟩ offset data found
    · have none := fits.unseen table.1.path
        fun other member same => old ⟨other, member, same⟩
      rw [ReadMemory.lastBlock, none] at found
      cases found
  · exact fun path none =>
      fits.unseen path fun table member => none table (sub member)
  · intro key data found
    obtain ⟨kept, same, gives⟩ := fits.cache key data found
    cases kept with
    | block table offset =>
        exact ⟨.block ⟨table.1, sub table.2⟩ offset, same, gives⟩
    | entry table offset =>
        exact ⟨.entry ⟨table.1, sub table.2⟩ offset, same, gives⟩

/-- Names are read off the paths. -/
theorem fileName_of_path {directory first second : String}
    (same : directory ++ "/" ++ first = directory ++ "/" ++ second) :
    first = second := by
  have lists := congrArg String.toList same
  simp only [String.toList_append] at lists
  exact String.toList_injective (List.append_cancel_left lists)

def Store.liveHandles (store : Store) : Set SstableFile :=
  {handle | ∃ level, ∃ table ∈ store.levels level, table.handle = handle}

/-- A start has nothing in memory. -/
theorem Holds.memoryFits_new (holds : Holds config store tree contents)
    (invariant : tree.Invariant config.compaction)
    (placed : ∀ level, ∀ table ∈ store.levels level, table.Placed config)
    (maxSize : Nat) :
    MemoryFits config store (.new maxSize) store.tableNames
      store.liveHandles := by
  constructor
  case live =>
    exact fun level table member =>
      ⟨⟨level, table, member, rfl⟩, placed level table member⟩
  case paths =>
    constructor
    · intro first second same
      obtain ⟨_, level, table, member, rfl⟩ := first
      obtain ⟨_, level', table', member', rfl⟩ := second
      have paths : table.handle.path = table'.handle.path := same
      rw [placed level table member, placed level' table' member'] at paths
      cases holds.eq_of_fileName invariant member member'
        (fileName_of_path paths)
      rfl
    · intro first
      obtain ⟨_, level, table, member, rfl⟩ := first
      change sstExtension <:+ table.handle.path.toList
      rw [placed level table member, String.toList_append]
      exact (holds.live_extension member).trans (List.suffix_append _ _)
  case known =>
    intro handle live
    obtain ⟨level, table, member, rfl⟩ := live
    exact ⟨table.fileName, ⟨level, table, member, rfl⟩,
      placed level table member⟩
  case holds => exact SharedMemory.fits_new maxSize
  case numbers =>
    intro name taken sequence number
    obtain ⟨level, table, member, rfl⟩ := taken
    exact holds.live_number invariant member number

/-- Tables with unused names come beside those that there were. -/
theorem MemoryFits.extend
    (fits : MemoryFits config store shared used seen)
    (holds : Holds config after tree contents)
    (invariant : tree.Invariant config.compaction)
    (counts : store.sequenceNumber ≤ after.sequenceNumber)
    (tables : ∀ level, ∀ table ∈ after.levels level,
      table ∈ store.levels level ∨
        table.Placed config ∧ table.fileName ∉ used) :
    MemoryFits config after shared (used ∪ after.tableNames)
      (seen ∪ after.liveHandles) := by
  have placed : ∀ level, ∀ table ∈ after.levels level,
      table.Placed config := fun level table member =>
    (tables level table member).elim (fun old => (fits.live level table old).2)
      (·.1)
  have started := holds.memoryFits_new invariant placed 0
  have apart : ∀ handle ∈ seen, ∀ other ∈ after.liveHandles,
      handle.path = other.path → other ∈ seen := by
    intro handle member other live same
    obtain ⟨level, table, there, rfl⟩ := live
    rcases tables level table there with old | new
    · exact (fits.live level table old).1
    · obtain ⟨name, taken, path⟩ := fits.known handle member
      rw [new.1, path] at same
      rw [fileName_of_path same] at taken
      exact absurd taken new.2
  have both : ∀ handle ∈ seen ∪ after.liveHandles,
      ∀ other ∈ seen ∪ after.liveHandles, handle.path = other.path →
        handle = other := by
    intro handle member other member' same
    rcases member with old | new
    · have there : other ∈ seen :=
        member'.elim id fun live => apart handle old other live same
      exact congrArg Subtype.val
        (fits.paths.apart ⟨handle, old⟩ ⟨other, there⟩ same)
    · rcases member' with old' | new'
      · have there := apart other old' handle new same.symm
        exact congrArg Subtype.val
          (fits.paths.apart ⟨handle, there⟩ ⟨other, old'⟩ same)
      · exact congrArg Subtype.val
          (started.paths.apart ⟨handle, new⟩ ⟨other, new'⟩ same)
  have paths : TablePaths (Among (seen ∪ after.liveHandles)) := by
    constructor
    · exact fun first second same =>
        Subtype.ext (both first.1 first.2 second.1 second.2 same)
    · rintro ⟨handle, old | new⟩
      · exact fits.paths.named ⟨handle, old⟩
      · exact started.paths.named ⟨handle, new⟩
  constructor
  case live =>
    exact fun level table member =>
      ⟨Or.inr ⟨level, table, member, rfl⟩, placed level table member⟩
  case paths => exact paths
  case known =>
    intro handle member
    rcases member with old | new
    · obtain ⟨name, taken, path⟩ := fits.known handle old
      exact ⟨name, Or.inl taken, path⟩
    · obtain ⟨name, taken, path⟩ := started.known handle new
      exact ⟨name, Or.inr taken, path⟩
  case holds => exact fits.holds.more Set.subset_union_left paths
  case numbers =>
    intro name taken sequence number
    rcases taken with old | new
    · exact (fits.numbers name old sequence number).trans_le counts
    · exact started.numbers name new sequence number

/-! ## Steps -/

theorem MemoryFits.flushName_unused
    (fits : MemoryFits config store shared used seen)
    (below : store.sequenceNumber < u64Limit) :
    (SstableName.flush 0 store.sequenceNumber).fileName ∉ used := by
  intro taken
  have named : (SstableName.flush 0 store.sequenceNumber).Fits :=
    ⟨by decide, below⟩
  have number := parseSstableFlushSequenceFromFilename_fileName named
  exact Nat.lt_irrefl _ (fits.numbers _ taken _ number)

theorem MemoryFits.reads (fits : MemoryFits config store shared used seen)
    (holds : Holds config store tree contents) (key : String) :
    ((store.getCaching config key shared).1 = store.get config none key ∧
      MemoryFits config store (store.getCaching config key shared).2 used
        seen) ∧
      (store.tryGetSyncCaching config key shared).1 =
          store.tryGetSync config none key ∧
        MemoryFits config store
          (store.tryGetSyncCaching config key shared).2 used seen := by
  have among : ∀ level, ∀ table ∈ store.levels level,
      table.handle ∈ seen ∧ table.handle.decompressedBlock = none := by
    intro level table member
    obtain ⟨list, -, name, entries, written, stored, on, -⟩ :=
      Corresponding.exists_right (holds.levels level) member
    exact ⟨(fits.live level table member).1, on.noBlock⟩
  obtain ⟨⟨answer, after⟩, answer', after'⟩ :=
    Store.caching_plain fits.paths among fits.holds key
  exact ⟨⟨answer, { fits with holds := after }⟩, answer',
    { fits with holds := after' }⟩

/-- A manual compaction adds tables with unused names. -/
theorem MemoryFits.compactAll
    (isSnappy : IsSnappy config.compressVec config.decompressVec)
    (resilient : config.load.sstable.enableResilientHandling = true)
    (levels : 0 < config.compaction.levelCount)
    (follows : Follows config store tree contents current durable)
    (memory : MemoryFits config store shared used seen)
    (fits : FitsTable store)
    (unused : ∀ i, (readings.name 1 i).fileName ∉ used)
    (compacted : store.compactAll config createdAt readings = .ok after) :
    store.sequenceNumber ≤ after.sequenceNumber ∧
      ∀ level, ∀ table ∈ after.levels level,
        table ∈ store.levels level ∨
          table.Placed config ∧ table.fileName ∉ used := by
  obtain ⟨flushed, done, merged⟩ := Fallible.bind_eq_ok_iff.mp compacted
  obtain ⟨info, contents', follows'⟩ :=
    follows.flush isSnappy resilient levels fits done
  obtain ⟨counts, flushTables⟩ := follows.holds.flush_tables fits done
  obtain ⟨same, outputs⟩ := follows'.holds.compactTables_tables isSnappy
    follows'.invariant merged
  refine ⟨by omega, fun level table member => ?_⟩
  rcases outputs level table member with old | ⟨placed, i, named⟩
  · rcases flushTables level table old with before | ⟨placed, named⟩
    · exact Or.inl before
    · refine Or.inr ⟨placed, ?_⟩
      rw [named]
      exact memory.flushName_unused follows.holds.below
  · refine Or.inr ⟨placed, ?_⟩
    rw [named]
    exact unused i

theorem start_placed (dir : TableDirectory) (active : Memtable) :
    ∀ level, ∀ table ∈ (Store.start config dir active).levels level,
      table.Placed config := by
  intro level table member
  obtain ⟨loaded, -, rfl⟩ := List.mem_map.mp member
  rfl

theorem CachingRun.memoryFits
    (isSnappy : IsSnappy config.compressVec config.decompressVec)
    (resilient : config.load.sstable.enableResilientHandling = true)
    (levels : 0 < config.compaction.levelCount)
    (target : config.compaction.targetSize < 2 ^ 32)
    (run : CachingRun config maxSize store shared used current durable) :
    ∃ seen, MemoryFits config store shared used seen := by
  induction run with
  | empty =>
      obtain ⟨tree, contents, follows⟩ :=
        follows_empty isSnappy resilient levels
      have fits := follows.holds.memoryFits_new follows.invariant
        (start_placed _ _) maxSize
      have none : (Store.start config ⟨[], none⟩ .new).tableNames = ∅ := by
        refine Set.eq_empty_of_forall_notMem fun name taken => ?_
        obtain ⟨level, table, member, -⟩ := taken
        obtain ⟨loaded, listed, -⟩ := List.mem_map.mp member
        rw [TableDirectory.loadedLevel] at listed
        exact absurd ((ite_self (c := level > 0) ([] : List LoadedTable)) ▸
          listed) List.not_mem_nil
      rw [none] at fits
      exact ⟨_, fits⟩
  | put key value _ writable inductionHypothesis =>
      obtain ⟨seen, fits⟩ := inductionHypothesis
      exact ⟨seen, fits.live, fits.paths, fits.known, fits.holds,
        fits.numbers⟩
  | delete key _ writable inductionHypothesis =>
      obtain ⟨seen, fits⟩ := inductionHypothesis
      exact ⟨seen, fits.live, fits.paths, fits.known, fits.holds,
        fits.numbers⟩
  | get key before inductionHypothesis =>
      obtain ⟨seen, fits⟩ := inductionHypothesis
      obtain ⟨tree, contents, follows⟩ :=
        before.storeRun.follows isSnappy resilient levels target
      exact ⟨seen, (fits.reads follows.holds key).1.2⟩
  | tryGetSync key before inductionHypothesis =>
      obtain ⟨seen, fits⟩ := inductionHypothesis
      obtain ⟨tree, contents, follows⟩ :=
        before.storeRun.follows isSnappy resilient levels target
      exact ⟨seen, (fits.reads follows.holds key).2.2⟩
  | flush createdAt before fits flushed inductionHypothesis =>
      obtain ⟨seen, memory⟩ := inductionHypothesis
      obtain ⟨tree, contents, follows⟩ :=
        before.storeRun.follows isSnappy resilient levels target
      obtain ⟨info, contents', after⟩ :=
        follows.flush isSnappy resilient levels fits flushed
      obtain ⟨counts, tables⟩ := follows.holds.flush_tables fits flushed
      refine ⟨_, memory.extend after.holds after.invariant counts
        fun level table member => (tables level table member).imp_right
          fun new => ⟨new.1, ?_⟩⟩
      rw [new.2]
      exact memory.flushName_unused follows.holds.below
  | compactAll createdAt readings before fits names unused compacted
      inductionHypothesis =>
      obtain ⟨seen, memory⟩ := inductionHypothesis
      obtain ⟨tree, contents, follows⟩ :=
        before.storeRun.follows isSnappy resilient levels target
      obtain ⟨counts, tables⟩ := memory.compactAll isSnappy resilient levels
        follows fits unused compacted
      obtain ⟨tree', contents', after⟩ := follows.compactAll isSnappy
        resilient levels target fits names compacted
      exact ⟨_, memory.extend after.holds after.invariant counts tables⟩
  | restart active before leftOver found names writable _ =>
      obtain ⟨tree, contents, follows⟩ :=
        before.storeRun.follows isSnappy resilient levels target
      obtain ⟨tree', contents', after⟩ := follows.restart isSnappy resilient
        levels leftOver found names writable
      exact ⟨_, after.holds.memoryFits_new after.invariant
        (start_placed _ _) maxSize⟩

end

/-- In every run the reads find what the run says about a key, whatever they
and the reads before them have left in memory. -/
theorem caching_reads_find_what_was_written {config : StoreConfig}
    (isSnappy : IsSnappy config.compressVec config.decompressVec)
    (resilient : config.load.sstable.enableResilientHandling = true)
    (levels : 0 < config.compaction.levelCount)
    (target : config.compaction.targetSize < 2 ^ 32)
    {maxSize : Nat} {store : Store} {shared : SharedMemory String}
    {used : Set String} {current durable : String → Option Value}
    (run : CachingRun config maxSize store shared used current durable)
    (key : String) :
    (store.getCaching config key shared).1 = current key ∧
      (store.tryGetSyncCaching config key shared).1 = .ok (current key) := by
  obtain ⟨tree, contents, follows⟩ :=
    run.storeRun.follows isSnappy resilient levels target
  obtain ⟨seen, fits⟩ := run.memoryFits isSnappy resilient levels target
  obtain ⟨⟨get, -⟩, tryGet, -⟩ := fits.reads follows.holds key
  obtain ⟨found, found'⟩ :=
    follows.reads isSnappy follows.holds.nothingHeld key
  exact ⟨get.trans found, tryGet.trans found'⟩

theorem twoWrites_caching_run :
    ∃ current, current "a" = some (.string "x") ∧
      CachingRun smallStore 4096 twoWrites (.new 4096) ∅ current
        fun _ => none := by
  refine ⟨_, ?_,
    (CachingRun.empty.put "a" (.string "x") ?_).delete "b" ?_⟩
  · rw [Function.update_of_ne (by decide), Function.update_self]
    rfl
  · exact ⟨⟨by decide, by decide⟩, rfl, by decide⟩
  · exact ⟨⟨by decide, by decide⟩, rfl, by decide⟩

/-- The value is read again after a read has left its block in memory. -/
theorem twoWrites_are_read_again : ∃ after,
    twoWrites.flush smallStore 1 = .ok after ∧
      (after.getCaching smallStore "a"
        (after.tryGetSyncCaching smallStore "a" (.new 4096)).2).1 =
          some (.string "x") := by
  obtain ⟨current, said, run⟩ := twoWrites_caching_run
  have ran : (twoWrites.flush smallStore 1).toOption.isSome = true := by
    decide +kernel
  obtain ⟨after, found⟩ := Option.isSome_iff_exists.mp ran
  have flushed := Fallible.toOption_eq_some_iff.mp found
  have fits : FitsTable twoWrites := ⟨by decide +kernel, by decide +kernel⟩
  have isSnappy : IsSnappy smallStore.compressVec smallStore.decompressVec :=
    compressBy_isSnappy (by decide +kernel)
  have reads := caching_reads_find_what_was_written isSnappy rfl (by decide)
    (by decide) ((run.flush 1 fits flushed).tryGetSync "a") "a"
  rw [said] at reads
  exact ⟨after, flushed, reads.1⟩

end F4kvsLsm
