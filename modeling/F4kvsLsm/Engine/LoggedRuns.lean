import F4kvsLsm.Engine.LoggedSteps

/-!
# Crashes of an engine over its files

Whatever an operation leaves in the log and among the tables when it is cut
off, the next start reads every acknowledged write, and of the operation in
flight some first writes.
-/

namespace F4kvsLsm

open ByteCodec KeyedLog TableFile Versions

/-! ## What a crash leaves of the tables -/

section

variable {config : StoreConfig} {store after : Store} {tree : LsmTree}
  {contents contents' : List FileContent} {createdAt : UInt64}
  {said current durable : String → Option Value} {dir : TableDirectory}

/-- A file that was not written to its end shows nothing. -/
theorem DirectoryShows.torn
    (isSnappy : IsSnappy config.compressVec config.decompressVec)
    (shows : DirectoryShows config dir said) {name : SstableName}
    (fits : name.Fits)
    (free : ∀ other ∈ dir.files, other.fileName ≠ name.fileName)
    (small : ∀ sequence, name.flushSequence = some sequence →
      sequence < u64Limit - 1)
    {bytes : Bytes} {short : bytes.length < 2 ^ 63}
    (closed : (tryReadMetadata bytes).toOption = none) :
    DirectoryShows config (dir.create ⟨name.fileName, bytes, short⟩) said := by
  obtain ⟨tree, contents, startable, same⟩ := shows
  have files := @TableDirectory.create_files dir
    ⟨name.fileName, bytes, short⟩ free
  have leftOver : List.Forall₂ (LeftOver config)
      [⟨name.fileName, bytes, short⟩] [.torn name] := by
    refine .cons ⟨⟨rfl, fits, closed⟩, rfl, ?_⟩ .nil
    intro other sequence same number
    cases same
    exact small sequence number
  have names : ((dir.create ⟨name.fileName, bytes, short⟩).files.map
      (·.fileName)).Nodup := by
    rw [files, List.map_append, List.nodup_append]
    refine ⟨startable.names, List.nodup_singleton _, ?_⟩
    intro taken member other there same
    obtain ⟨old, inDir, rfl⟩ := List.mem_map.mp member
    rw [List.map_singleton, List.mem_singleton] at there
    exact free old inDir (same.trans there)
  obtain ⟨contents', startable'⟩ :=
    startable.found isSnappy leftOver (List.Perm.of_eq files) names
  exact ⟨tree, contents', startable', same⟩

/-- The stamps of a flush are below the next number that is found from its
name. -/
theorem stamp_lt_nextSequence_of_name
    (isSnappy : IsSnappy config.compressVec config.decompressVec)
    (represents : List.Forall₂ (Represents config.compressVec config.hash)
      dir.files contents)
    {table : SSTable} (member : table ∈ contents.filterMap FileContent.table)
    {sequence stamp : Nat} (named : table.name.flushSequence = some sequence)
    (within : stamp ≤ sequence + table.entries.length)
    (small : sequence + table.entries.length < u64Limit - 1) :
    stamp < dir.nextSequence := by
  have seen : sequence + table.entries.length ≤
      maxEntryTs (contents.filterMap FileContent.table) :=
    HighWater.le_highest (List.mem_filterMap.mpr
      ⟨table, member, by rw [named]; rfl⟩)
  have next : dir.nextSequence =
      min (loadExistingSstables (contents.filterMap FileContent.name)
        (contents.filterMap FileContent.table)
        (dir.loadSequenceFile.getD 0)).2 (u64Limit - 1) :=
    nextSequence_represents isSnappy represents
  rw [loadExistingSstables] at next
  dsimp only at next
  omega

/-- An entry behind a flush is one from before, or one of the new table. -/
theorem mem_allEntries_flush (tree : LsmTree) (info : TableInfo)
    {entry : SSTableEntry}
    (member : entry ∈ allEntries
      ((tree.flushMemtableInternal [] info .done).1.levels 0 ++
        (tree.flushMemtableInternal [] info .done).1.levels 1)) :
    entry ∈ allEntries (tree.levels 0 ++ tree.levels 1) ∨
      LsmTree.flushedTable [] info tree ∈
          (tree.flushMemtableInternal [] info .done).1.levels 0 ∧
        entry ∈ (LsmTree.flushedTable [] info tree).entries := by
  rw [LsmTree.flushMemtableInternal] at member ⊢
  split at member
  · case isTrue filled =>
      rw [if_pos filled]
      dsimp only at member ⊢
      rw [allEntries_append, List.mem_append, mem_allEntries_publish,
        publish_succ] at member
      rw [allEntries_append, List.mem_append]
      rcases member with (old | new) | low
      · exact Or.inl (Or.inl old)
      · rw [publish_zero]
        exact Or.inr ⟨List.mem_append_right _ List.mem_cons_self, new⟩
      · exact Or.inl (Or.inr low)
  · exact Or.inl member

/-- The table of a flush is found before its number is persisted. -/
theorem Holds.startable_complete
    (isSnappy : IsSnappy config.compressVec config.decompressVec)
    (holds : Holds config store tree contents)
    (invariant : tree.Invariant config.compaction) {info : TableInfo}
    (after' : Holds config after
      (tree.flushMemtableInternal [] info .done).1 contents') :
    Startable config ⟨after.dir.files, store.dir.sequence⟩
      (tree.flushMemtableInternal [] info .done).1 contents' := by
  have persisted := after'.startable (invariant.flush [] info .done)
  have mark : (TableDirectory.mk after.dir.files
      store.dir.sequence).loadSequenceFile = some store.sequenceNumber :=
    holds.mark
  have represents : List.Forall₂
      (Represents config.compressVec config.hash)
      (TableDirectory.mk after.dir.files store.dir.sequence).files
      contents' := persisted.files
  constructor
  case invariant => exact persisted.invariant
  case readable => exact ⟨_, mark⟩
  case files => exact represents
  case names => exact persisted.names
  case tables => exact persisted.tables
  case flushNames => exact persisted.flushNames
  case flushStamps => exact persisted.flushStamps
  case stamped =>
    intro entry member
    rcases mem_allEntries_flush tree info member with old | ⟨there, new⟩
    · have less := invariant.stamped entry old
      rw [holds.sequence] at less
      exact less.trans_le (TableDirectory.le_nextSequence mark)
    · have listed := List.mem_append_left
        ((tree.flushMemtableInternal [] info .done).1.levels 1) there
      obtain ⟨-, -, high⟩ := LsmTree.mem_stampEntries
        tree.active.getAllEntries_sorted new
      refine stamp_lt_nextSequence_of_name isSnappy represents
        (persisted.tables.symm.subset listed) rfl ?_
        (persisted.flushStamps _ listed _ rfl)
      have length : (LsmTree.flushedTable [] info tree).entries.length =
          tree.active.getAllEntries.length := by
        rw [(flushedTable_of_free info tree).1]
        dsimp only
        rw [LsmTree.stampEntries_eq tree.active.getAllEntries_sorted,
          List.length_mapIdx]
      rw [length]
      omega
  case kept => exact persisted.kept

/-- At every point of a flush the tables show what they have shown before, or
everything. -/
theorem StoreFlushImage.shows
    (isSnappy : IsSnappy config.compressVec config.decompressVec)
    (resilient : config.load.sstable.enableResilientHandling = true)
    (levels : 0 < config.compaction.levelCount)
    (image : StoreFlushImage config store dir)
    (follows : Follows config store tree contents current durable)
    (fits : FitsTable store) :
    DirectoryShows config dir durable ∨ DirectoryShows config dir current := by
  have before := follows.shows
  cases image with
  | before => exact Or.inl before
  | writing filled closed =>
      have room := fits.room
      have nameFits : (SstableName.flush 0 store.sequenceNumber).Fits :=
        ⟨by decide, follows.holds.below⟩
      rw [freePath_eq follows.holds.flushName_free]
      refine Or.inl (before.torn isSnappy nameFits
        follows.holds.flushName_free ?_ closed)
      intro sequence number
      cases number
      omega
  | complete flushed =>
      obtain ⟨info, contents', after⟩ :=
        follows.flush isSnappy resilient levels fits flushed
      exact Or.inr ⟨_, contents', follows.holds.startable_complete isSnappy
        follows.invariant after.holds, after.tables.symm⟩
  | persisted flushed =>
      obtain ⟨info, contents', after⟩ :=
        follows.flush isSnappy resilient levels fits flushed
      exact Or.inr after.shows

theorem CompactionImage.shows
    (isSnappy : IsSnappy config.compressVec config.decompressVec)
    (resilient : config.load.sstable.enableResilientHandling = true)
    (levels : 0 < config.compaction.levelCount) {readings : OutputReadings}
    (image : CompactionImage config store readings dir)
    (follows : Follows config store tree contents current durable)
    (fits : FitsTable store) (names : UnusedNames readings 1 0 store.dir) :
    DirectoryShows config dir durable ∨ DirectoryShows config dir current := by
  cases image with
  | flushing image =>
      exact image.shows isSnappy resilient levels follows fits
  | writing flushed closed =>
      obtain ⟨info, contents', after⟩ :=
        follows.flush isSnappy resilient levels fits flushed
      have unused := follows.holds.unusedNames_flush fits names flushed
      have nameFits : (readings.name 1 0).Fits := by
        change 1 < u64Limit
        decide
      exact Or.inr (after.shows.torn isSnappy nameFits
        (unused.unused 0 le_rfl) (fun sequence number => by cases number)
        closed)

end

/-! ## What a crash leaves of the disk -/

section

variable {config : LoggedConfig} {disk disk' : StoreDisk} {e : LoggedStore}
  {expected : String → Option Value} {clock now : UInt64}

/-- A truncation that is cut off before or after its removal loop. -/
theorem TruncationImage.storeSound {m : FileWal} {dir : List WalFile}
    (image : TruncationImage config.wal m dir)
    (sound : e.Sound config expected clock) (segment : e.wal = .segment m)
    {files : TableDirectory}
    (shows : DirectoryShows config.store files expected) :
    StoreDisk.Sound config ⟨.segment dir, files⟩ expected clock := by
  have empty : FileWal.OnDisk .segment [] := FileWal.onDisk_nil
  have there : StoreDisk.Sound config ⟨e.wal.disk, files⟩ expected clock :=
    sound.onDisk.withDirectory fun _ _ => Or.inr shows
  cases image with
  | closed =>
      have ready := sound.ready
      rw [segment] at ready there
      have grows : FileWal.Grows .segment config.wal m _ [] :=
        FileWal.flush_grows ready
      have same := grows.recovered
      rw [List.append_nil] at same
      exact there.of_recovered grows.ready.onDisk same rfl
  | removed => exact .of_tables empty rfl shows
  | @created now cut =>
      have above : ∀ file ∈ ([] : List WalFile), file.id < m.counter :=
        fun file member => absurd member List.not_mem_nil
      have survives : FileWal.Survives .segment config.wal [] _ :=
        FileWal.created_survives empty above now cut
      exact .of_tables survives.onDisk survives.recovered shows

theorem LogImage.storeSound {op : EngineOp} {call : WalCall} {m : FileWal}
    {dir : List WalFile} (image : LogImage config.wal call.entries m dir)
    (sound : e.Sound config expected clock) (segment : e.wal = .segment m)
    (made : op.call config.engine now = some call)
    (admitted : LoggedAdmitted config e clock now op) :
    ∃ front, front <+: op.writes ∧
      StoreDisk.Sound config ⟨.segment dir, e.store.dir⟩
        (applyWrites expected front) now := by
  have ready := sound.ready
  have admissible := admitted.admissible.1 call made
  rw [segment] at ready admissible
  have admitsCall : WalHandle.Admissible config.wal
      FileEngine.segment.walEngine call := admissible
  have holds := image.holdsPrefix ready admitsCall.storable
  obtain ⟨front, isPrefix, read⟩ := holds.recovered
  obtain ⟨writes, facts⟩ := EngineOp.call_entries made
  have onDisk : (WalDisk.segment dir).OnDisk config.wal := holds.onDisk
  have logged : (WalDisk.segment dir).recovered config.wal =
      e.disk.log.recovered config.wal ++ front := by
    simp only [LoggedStore.disk, segment]
    exact read
  have some : writesOf front <+: op.writes := by
    rw [← writes]
    exact isPrefix.filterMap _
  exact ⟨writesOf front, some, sound.onDisk.append onDisk logged rfl
    admitted.later
    (fun entry member => (facts entry (isPrefix.subset member)).1)
    (fun entry member => (facts entry (isPrefix.subset member)).2)
    fun write member => admitted.writable write (some.subset member)⟩

theorem StoreOpenImage.sound
    (isSnappy : IsSnappy config.store.compressVec config.store.decompressVec)
    (resilient : config.store.load.sstable.enableResilientHandling = true)
    (levels : 0 < config.store.compaction.levelCount)
    (image : StoreOpenImage config disk disk')
    (sound : disk.Sound config expected clock) :
    disk'.Sound config expected clock := by
  cases image with
  | @creating dir files now cut =>
      have same := WalDisk.created_sameLog sound.onDisk now cut
      exact sound.of_recovered same.onDisk same.recovered rfl
  | initialized opened =>
      have same := WalDisk.opened_sameLog sound.onDisk opened
      exact sound.of_recovered same.onDisk same.recovered rfl
  | @loaded _ now e opened =>
      obtain ⟨e', result, openSound⟩ :=
        sound.opens isSnappy resilient levels now
      cases opened.symm.trans result
      exact openSound.onDisk

/-- A flush that is cut off. -/
theorem StoreFlushImage.sound
    (isSnappy : IsSnappy config.store.compressVec config.store.decompressVec)
    (resilient : config.store.load.sstable.enableResilientHandling = true)
    (levels : 0 < config.store.compaction.levelCount) {wal : WalHandle}
    {store : Store} {dir : TableDirectory}
    (image : StoreFlushImage config.store store dir)
    (sound : LoggedStore.Sound config ⟨wal, store⟩ expected clock)
    (fits : FitsTable store) :
    StoreDisk.Sound config ⟨wal.disk, dir⟩ expected clock := by
  obtain ⟨tree, contents, durable, follows, applied⟩ := sound.follows
  rcases image.shows isSnappy resilient levels follows fits with same | all
  · exact ⟨sound.ready.onDisk, sound.log, durable, same, applied⟩
  · exact ⟨sound.ready.onDisk, sound.log, expected, all,
      applyWrites_again applied⟩

theorem CompactionImage.sound
    (isSnappy : IsSnappy config.store.compressVec config.store.decompressVec)
    (resilient : config.store.load.sstable.enableResilientHandling = true)
    (levels : 0 < config.store.compaction.levelCount)
    {readings : OutputReadings} {dir : TableDirectory}
    (image : CompactionImage config.store e.store readings dir)
    (sound : e.Sound config expected clock) (fits : FitsTable e.store)
    (names : UnusedNames readings 1 0 e.store.dir) :
    StoreDisk.Sound config ⟨e.wal.disk, dir⟩ expected clock := by
  obtain ⟨tree, contents, durable, follows, applied⟩ := sound.follows
  rcases image.shows isSnappy resilient levels follows fits names with
    same | all
  · exact ⟨sound.ready.onDisk, sound.log, durable, same, applied⟩
  · exact ⟨sound.ready.onDisk, sound.log, expected, all,
      applyWrites_again applied⟩

theorem StoreCrashImage.sound
    (isSnappy : IsSnappy config.store.compressVec config.store.decompressVec)
    (resilient : config.store.load.sstable.enableResilientHandling = true)
    (levels : 0 < config.store.compaction.levelCount) {op : EngineOp}
    (image : StoreCrashImage config now e op disk)
    (sound : e.Sound config expected clock)
    (admitted : LoggedAdmitted config e clock now op) :
    ∃ front, front <+: op.writes ∧
      disk.Sound config (applyWrites expected front) now := by
  have later := admitted.later
  cases image with
  | before => exact ⟨[], List.nil_prefix, sound.onDisk.mono later⟩
  | logging made segment logImage =>
      exact logImage.storeSound sound segment made admitted
  | logged made done =>
      obtain ⟨wal, written, writtenSound⟩ := sound.write made later
        (admitted.admissible.1 _ made) admitted.writable
      cases done.symm.trans written
      exact ⟨op.writes, List.prefix_rfl, writtenSound.onDisk⟩
  | filled made done full flushImage =>
      obtain ⟨wal, written, writtenSound⟩ := sound.write made later
        (admitted.admissible.1 _ made) admitted.writable
      cases done.symm.trans written
      have fits := admitted.fits
      rw [LoggedStore.applied, made] at fits
      exact ⟨op.writes, List.prefix_rfl,
        flushImage.sound isSnappy resilient levels writtenSound fits⟩
  | forced flushImage =>
      exact ⟨[], List.nil_prefix, (flushImage.sound isSnappy resilient levels
        sound admitted.fits).mono later⟩
  | flushing done flushImage =>
      obtain ⟨wal, result, grows⟩ := WalHandle.flush_grows sound.ready
      cases done.symm.trans result
      have synced := sound.withWal grows
      exact ⟨[], List.nil_prefix, (flushImage.sound isSnappy resilient levels
        synced admitted.fits).mono later⟩
  | closing flushImage =>
      obtain ⟨wal, result, grows⟩ := WalHandle.flush_grows sound.ready
      have background : e.shutdownBackgroundTasks config = wal := by
        rw [LoggedStore.shutdownBackgroundTasks, result]
      rw [background]
      have synced := sound.withWal grows
      exact ⟨[], List.nil_prefix, (flushImage.sound isSnappy resilient levels
        synced admitted.fits).mono later⟩

/-! ## What a run keeps -/

def LoggedPhase.Sound (config : LoggedConfig) (phase : LoggedPhase)
    (expected : String → Option Value) (clock : UInt64) : Prop :=
  match phase with
  | .down disk => disk.Sound config expected clock
  | .up e => e.Sound config expected clock

def LoggedState.Sound (config : LoggedConfig) (state : LoggedState) : Prop :=
  ∃ expected, Outcome List.IsPrefix state.events expected ∧
    state.phase.Sound config expected state.clock

theorem LoggedState.disk_sound {state : LoggedState}
    (sound : state.phase.Sound config expected clock) :
    state.disk.Sound config expected clock := by
  rw [LoggedState.disk]
  cases at' : state.phase with
  | down disk =>
      rw [at'] at sound
      exact sound
  | up e =>
      rw [at'] at sound
      exact LoggedStore.Sound.onDisk sound

theorem LoggedState.created_sound
    (levels : 0 < config.store.compaction.levelCount) (engine : WalEngine) :
    (LoggedState.created engine).Sound config :=
  ⟨_, .start, .of_tables (WalDisk.empty_onDisk config.wal engine)
    (WalDisk.empty_recovered config.wal engine)
    ⟨.empty, [], startable_empty, getFromSstables_empty levels⟩⟩

section

variable
  (isSnappy : IsSnappy config.store.compressVec config.store.decompressVec)
  (resilient : config.store.load.sstable.enableResilientHandling = true)
  (levels : 0 < config.store.compaction.levelCount)
  (target : config.store.compaction.targetSize < 2 ^ 32)

include isSnappy resilient levels target

theorem LoggedStep.keeps {state state' : LoggedState}
    (taken : LoggedStep config state state')
    (sound : state.Sound config) : state'.Sound config := by
  obtain ⟨expected, outcome, phase⟩ := sound
  cases taken with
  | @reopen log dir files left leftContents events clock now e leftOver
      listed names opened =>
      have there : StoreDisk.Sound config ⟨log, dir⟩ expected clock := phase
      obtain ⟨e', result, openSound⟩ := (there.found isSnappy leftOver listed
        names).opens isSnappy resilient levels now
      cases opened.symm.trans result
      exact ⟨expected, outcome, openSound⟩
  | crashReopening image =>
      exact ⟨expected, outcome,
        image.sound isSnappy resilient levels phase⟩
  | acknowledged admitted done =>
      have open' : LoggedStore.Sound config _ expected _ := phase
      exact ⟨_, outcome.acknowledged,
        open'.runOp isSnappy resilient levels admitted done⟩
  | refused _ =>
      exact ⟨expected, outcome.unacknowledged List.nil_prefix, phase⟩
  | compactAll fits names compacted =>
      have open' : LoggedStore.Sound config _ expected _ := phase
      exact ⟨expected, outcome, open'.compactAll isSnappy resilient levels
        target fits names compacted⟩
  | crash admitted image =>
      obtain ⟨front, isPrefix, sound⟩ :=
        image.sound isSnappy resilient levels phase admitted
      exact ⟨_, outcome.unacknowledged isPrefix, sound⟩
  | crashTruncating fits synced flushed segment image =>
      have open' : LoggedStore.Sound config _ expected _ := phase
      obtain ⟨wal, result, grows⟩ := WalHandle.flush_grows open'.ready
      cases synced.symm.trans result
      obtain ⟨tree, contents, follows⟩ := open'.flushed_follows isSnappy
        resilient levels fits flushed
      exact ⟨expected, outcome, image.storeSound (open'.withWal grows) segment
        follows.shows⟩
  | crashCompacting fits names image =>
      exact ⟨expected, outcome,
        image.sound isSnappy resilient levels phase fits names⟩
  | stop =>
      have open' : LoggedStore.Sound config _ expected _ := phase
      exact ⟨expected, outcome, open'.onDisk⟩

theorem LoggedState.reaches_sound {engine : WalEngine} {state : LoggedState}
    (run : Relation.ReflTransGen (LoggedStep config) (.created engine)
      state) : state.Sound config := by
  induction run with
  | refl => exact LoggedState.created_sound levels engine
  | tail _ taken inductionHypothesis =>
      exact taken.keeps isSnappy resilient levels target inductionHypothesis

end

end

/-- In every run with crashes at any point, a start reads the acknowledged
writes, and of each operation that was cut off some first writes; an open
engine reads the same, whatever blocks it holds in memory. -/
theorem logged_store_recovers {config : LoggedConfig}
    (isSnappy : IsSnappy config.store.compressVec config.store.decompressVec)
    (resilient : config.store.load.sstable.enableResilientHandling = true)
    (levels : 0 < config.store.compaction.levelCount)
    (target : config.store.compaction.targetSize < 2 ^ 32)
    {engine : WalEngine} {state : LoggedState}
    (run : Relation.ReflTransGen (LoggedStep config) (.created engine)
      state) :
    ∃ expected, Outcome List.IsPrefix state.events expected ∧
      state.disk.Recovers config expected ∧
      ∀ e, state.phase = .up e → ∀ blockCache,
        (∀ level, ∀ table ∈ e.store.levels level,
          Intact.CacheFits config.store.compressVec blockCache
            table.handle) →
        ∀ key, e.store.get config.store blockCache key = expected key ∧
          e.store.tryGetSync config.store blockCache key =
            .ok (expected key) := by
  obtain ⟨expected, outcome, phase⟩ :=
    LoggedState.reaches_sound isSnappy resilient levels target run
  refine ⟨expected, outcome, (LoggedState.disk_sound phase).recovers isSnappy
    resilient levels, ?_⟩
  intro e up blockCache fits key
  rw [up] at phase
  have openSound : e.Sound config expected state.clock := phase
  obtain ⟨tree, contents, durable, follows, -⟩ := openSound.follows
  exact follows.reads isSnappy fits key

def smallLogged : LoggedConfig where
  wal := WalHandle.smallConfig
  allowRecoveryFailure := false
  maxSize := 1048576
  maxBatchSize := 1000
  store := smallStore

/-- An engine on an empty directory. -/
def openedStore : LoggedStore :=
  ⟨.segment (FileWal.initializeWal .segment smallLogged.wal (.new []) 1),
    Store.start smallStore ⟨[], none⟩ .new⟩

theorem openedStore_opens :
    StoreDisk.openEngine smallLogged ⟨.empty .segment, ⟨[], none⟩⟩ 1 =
      .ok openedStore := rfl

/-- The engine behind a put. -/
def writtenStore : LoggedStore :=
  (openedStore.runOp smallLogged (.put "a" (.string "x")) 2 1).getD
    openedStore

theorem emptyFile_short : ([] : Bytes).length < 2 ^ 63 := by
  decide

/-- A flush is cut off when its file is still empty. -/
def cutFlush : LoggedState where
  phase := .down ⟨writtenStore.wal.disk, writtenStore.store.dir.create
    ⟨(SstableName.flush 0 (freePath writtenStore.store.dir.files
      (writtenStore.store.dir.files.length + 1)
      writtenStore.store.sequenceNumber)).fileName, [], emptyFile_short⟩⟩
  events := [.acknowledged [("a", .string "x")], .unacknowledged []]
  clock := 3

theorem cutFlush_reached : Relation.ReflTransGen (LoggedStep smallLogged)
    (.created .segment) cutFlush := by
  have opened : LoggedStep smallLogged (.created .segment)
      ⟨.up openedStore, [], 0⟩ :=
    .reopen .nil (List.Perm.refl _) List.nodup_nil openedStore_opens
  have put : EngineOp.Admissible smallLogged.engine .segment 2
      (.put "a" (.string "x")) := by
    refine ⟨fun call made => ?_, by simp⟩
    obtain rfl := Option.some.inj made
    intro entry member
    rw [List.mem_singleton.mp member]
    exact ⟨by decide, by decide, rfl⟩
  have writable : ∀ write ∈ EngineOp.writes (.put "a" (.string "x")),
      Writable write.1 write.2 := by
    intro write member
    rw [List.mem_singleton.mp member]
    exact ⟨⟨by decide, by decide⟩, rfl, by decide⟩
  have ran : (openedStore.runOp smallLogged (.put "a" (.string "x")) 2
      1).isSome = true := by decide +kernel
  obtain ⟨after, done⟩ := Option.isSome_iff_exists.mp ran
  have same : writtenStore = after := by rw [writtenStore, done]; rfl
  have acknowledged : LoggedStep smallLogged ⟨.up openedStore, [], 0⟩
      ⟨.up writtenStore, [.acknowledged [("a", .string "x")]], 2⟩ :=
    .acknowledged ⟨by decide, put, writable,
      ⟨by decide +kernel, by decide +kernel⟩⟩ (same ▸ done)
  have flush : EngineOp.Admissible smallLogged.engine
      writtenStore.wal.disk.engine 3 .forceFlush :=
    ⟨fun call made => absurd made (by simp [EngineOp.call]), by simp⟩
  have flushes : LoggedAdmitted smallLogged writtenStore 2 3 .forceFlush :=
    ⟨by decide, flush, fun write member => absurd member List.not_mem_nil,
      ⟨by decide +kernel, by decide +kernel⟩⟩
  have crashed : LoggedStep smallLogged
      ⟨.up writtenStore, [.acknowledged [("a", .string "x")]], 2⟩
      cutFlush :=
    .crash flushes (.forced (.writing (by decide +kernel) rfl))
  exact ((Relation.ReflTransGen.single opened).tail acknowledged).tail crashed

/-- The put is read after the next start. -/
theorem cutFlush_recovers : ∃ expected, expected "a" = some (.string "x") ∧
    cutFlush.disk.Recovers smallLogged expected := by
  have isSnappy : IsSnappy smallStore.compressVec smallStore.decompressVec :=
    compressBy_isSnappy (by decide +kernel)
  obtain ⟨expected, outcome, recovers, -⟩ :=
    logged_store_recovers isSnappy rfl (by decide) (by decide)
      cutFlush_reached
  refine ⟨expected, ?_, recovers⟩
  have outcome : Outcome List.IsPrefix
      ([.acknowledged [("a", .string "x")]] ++ [.unacknowledged []])
      expected := outcome
  obtain ⟨before, part, first, isPrefix, rfl⟩ := outcome.of_unacknowledged
  have first : Outcome List.IsPrefix
      ([] ++ [.acknowledged [("a", .string "x")]]) before := first
  obtain ⟨-, -, rfl⟩ := first.of_acknowledged
  rw [List.prefix_nil.mp isPrefix]
  rw [applyWrites, List.foldl_nil, applyWrites, List.foldl_cons,
    List.foldl_nil, Function.update_self]
  rfl

end F4kvsLsm
