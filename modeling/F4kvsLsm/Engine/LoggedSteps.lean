import F4kvsLsm.Engine.LoggedStore

/-!
# What each step keeps on the disk

The tables say something about each key, and the writes of the log on top of
it give what is expected.  Every key of the memtable has a record in the log,
so a flush may put its table on the disk at any time.
-/

namespace F4kvsLsm

open ByteCodec KeyedLog TableFile Versions

/-! ## Writes on top of tables -/

/-- The writes of a log are there already. -/
theorem applyWrites_again {below expected : String → Option Value}
    {writes : List (String × Value)}
    (applied : applyWrites below writes = expected) :
    applyWrites expected writes = expected := by
  funext key
  have once := applyWrites_eq below writes key
  rw [applied] at once
  rw [applyWrites_eq]
  cases last : lastWrite writes key with
  | none => rfl
  | some value =>
      rw [last] at once
      exact once.symm

theorem overlay_eq_applyWrites {active : Memtable}
    {writes : List (String × Value)}
    (holds : ∀ key, active.data[key]? = lastWrite writes key)
    (below : String → Option Value) :
    overlay active below = applyWrites below writes := by
  funext key
  have written := applyWrites_eq below writes key
  cases last : lastWrite writes key with
  | none =>
      rw [last] at written
      rw [written]
      simp only [overlay, holds, last]
  | some value =>
      rw [last] at written
      rw [written]
      simp only [overlay, holds, last]

/-! ## What is kept -/

/-- The entries of a log are writes that can be replayed and flushed. -/
structure LogKept (log : List WALEntry) (clock : UInt64) : Prop where
  sound : LogSound log clock
  writable : ∀ write ∈ writesOf log, Writable write.1 write.2

theorem LogKept.nil (clock : UInt64) : LogKept [] clock :=
  ⟨LogSound.nil clock, fun _ member => by cases member⟩

theorem LogKept.mono {log : List WALEntry} {clock now : UInt64}
    (kept : LogKept log clock) (later : clock ≤ now) : LogKept log now :=
  ⟨kept.sound.mono later, kept.writable⟩

theorem LogKept.append {log entries : List WALEntry} {clock now : UInt64}
    (kept : LogKept log clock) (later : clock ≤ now)
    (writes : ∀ entry ∈ entries, entry.checkpoint? = none)
    (stamps : ∀ entry ∈ entries, entry.timestamp = now)
    (writable : ∀ write ∈ writesOf entries, Writable write.1 write.2) :
    LogKept (log ++ entries) now := by
  refine ⟨kept.sound.append later writes stamps, fun write member => ?_⟩
  rw [writesOf_append] at member
  rcases List.mem_append.mp member with old | new
  · exact kept.writable write old
  · exact writable write new

theorem LogKept.replay_writable {log : List WALEntry} {clock : UInt64}
    (kept : LogKept log clock) (jsonLen : SerdeJsonValue → Nat) :
    ∀ key value, (replay jsonLen .new log).data[key]? = some value →
      Writable key value := by
  intro key value found
  rw [replay_get, Memtable.new_get, Option.or_none] at found
  obtain ⟨front, back, whole, -⟩ := lastWrite_eq_some_iff.mp found
  refine kept.writable (key, value) ?_
  rw [whole]
  exact List.mem_append_right _ List.mem_cons_self

/-- A directory that a start can load, with what its tables say. -/
def DirectoryShows (config : StoreConfig) (dir : TableDirectory)
    (said : String → Option Value) : Prop :=
  ∃ tree contents, Startable config dir tree contents ∧
    getFromSstables config.compaction.levelCount tree.levels = said

/-- The writes of the log on top of the tables are what is expected. -/
structure StoreDisk.Sound (config : LoggedConfig) (disk : StoreDisk)
    (expected : String → Option Value) (clock : UInt64) : Prop where
  onDisk : disk.log.OnDisk config.wal
  log : LogKept (disk.log.recovered config.wal) clock
  tables : ∃ said, DirectoryShows config.store disk.dir said ∧
    applyWrites said (writesOf (disk.log.recovered config.wal)) = expected

structure LoggedStore.Sound (config : LoggedConfig) (e : LoggedStore)
    (expected : String → Option Value) (clock : UInt64) : Prop where
  ready : e.wal.Ready config.wal
  log : LogKept (e.wal.disk.recovered config.wal) clock
  follows : ∃ tree contents durable,
    Follows config.store e.store tree contents expected durable ∧
      applyWrites durable (writesOf (e.wal.disk.recovered config.wal)) =
        expected
  logged : ∀ key,
    lastWrite (writesOf (e.wal.disk.recovered config.wal)) key = none →
      e.store.active.data[key]? = none

section

variable {config : LoggedConfig} {disk disk' : StoreDisk} {e : LoggedStore}
  {expected : String → Option Value} {clock now createdAt : UInt64}

namespace StoreDisk.Sound

theorem append (sound : disk.Sound config expected clock)
    (onDisk : disk'.log.OnDisk config.wal) {entries : List WALEntry}
    (recovered : disk'.log.recovered config.wal =
      disk.log.recovered config.wal ++ entries)
    (same : disk'.dir = disk.dir) (later : clock ≤ now)
    (writes : ∀ entry ∈ entries, entry.checkpoint? = none)
    (stamps : ∀ entry ∈ entries, entry.timestamp = now)
    (writable : ∀ write ∈ writesOf entries, Writable write.1 write.2) :
    disk'.Sound config (applyWrites expected (writesOf entries)) now := by
  obtain ⟨said, shows, rfl⟩ := sound.tables
  refine ⟨onDisk, ?_, said, same ▸ shows, ?_⟩
  · rw [recovered]
    exact sound.log.append later writes stamps writable
  · rw [recovered, writesOf_append, applyWrites_append]

theorem mono (sound : disk.Sound config expected clock)
    (later : clock ≤ now) : disk.Sound config expected now :=
  ⟨sound.onDisk, sound.log.mono later, sound.tables⟩

/-- Of the log only the entries matter. -/
theorem of_recovered (sound : disk.Sound config expected clock)
    (onDisk : disk'.log.OnDisk config.wal)
    (recovered : disk'.log.recovered config.wal =
      disk.log.recovered config.wal) (same : disk'.dir = disk.dir) :
    disk'.Sound config expected clock := by
  refine ⟨onDisk, ?_, ?_⟩
  · rw [recovered]
    exact sound.log
  · rw [recovered, same]
    exact sound.tables

theorem withDirectory (sound : disk.Sound config expected clock)
    {dir : TableDirectory} (shows : ∀ said,
      DirectoryShows config.store disk.dir said →
        DirectoryShows config.store dir said ∨
          DirectoryShows config.store dir expected) :
    Sound config ⟨disk.log, dir⟩ expected clock := by
  obtain ⟨said, before, applied⟩ := sound.tables
  rcases shows said before with same | all
  · exact ⟨sound.onDisk, sound.log, said, same, applied⟩
  · exact ⟨sound.onDisk, sound.log, expected, all,
      applyWrites_again applied⟩

/-- The files may be listed in any order, and others beside them. -/
theorem found
    (isSnappy : IsSnappy config.store.compressVec config.store.decompressVec)
    (sound : disk.Sound config expected clock)
    {files left : List StoredFile} {leftContents : List FileContent}
    (leftOver : List.Forall₂ (LeftOver config.store) left leftContents)
    (found : files.Perm (disk.dir.files ++ left))
    (names : (files.map (·.fileName)).Nodup) :
    Sound config ⟨disk.log, ⟨files, disk.dir.sequence⟩⟩ expected clock := by
  refine sound.withDirectory fun said shows => Or.inl ?_
  obtain ⟨tree, contents, startable, same⟩ := shows
  obtain ⟨contents', there⟩ :=
    startable.found isSnappy leftOver found names
  exact ⟨tree, contents', there, same⟩

theorem of_tables {disk : StoreDisk} (onDisk : disk.log.OnDisk config.wal)
    (recovered : disk.log.recovered config.wal = [])
    (shows : DirectoryShows config.store disk.dir expected) :
    disk.Sound config expected clock := by
  refine ⟨onDisk, ?_, expected, shows, ?_⟩
  · rw [recovered]
    exact LogKept.nil clock
  · rw [recovered]
    rfl

end StoreDisk.Sound

/-- An open engine has its tables in its directory. -/
theorem Follows.shows {config : StoreConfig} {store : Store}
    {tree : LsmTree} {contents : List FileContent}
    {current durable : String → Option Value}
    (follows : Follows config store tree contents current durable) :
    DirectoryShows config store.dir durable :=
  ⟨tree, contents, follows.holds.startable follows.invariant,
    follows.tables.symm⟩

theorem LoggedStore.Sound.onDisk (sound : e.Sound config expected clock) :
    e.disk.Sound config expected clock := by
  obtain ⟨tree, contents, durable, follows, applied⟩ := sound.follows
  exact ⟨sound.ready.onDisk, sound.log, durable, follows.shows, applied⟩

/-! ## A start -/

section

variable
  (isSnappy : IsSnappy config.store.compressVec config.store.decompressVec)
  (resilient : config.store.load.sstable.enableResilientHandling = true)
  (levels : 0 < config.store.compaction.levelCount)

include isSnappy resilient levels

theorem StoreDisk.Sound.opens (sound : disk.Sound config expected clock)
    (now : UInt64) :
    ∃ e, disk.openEngine config now = .ok e ∧
      e.Sound config expected clock := by
  have read : disk.log.readEntriesForRecovery config.engine.wal = _ :=
    WalDisk.readEntriesForRecovery_onDisk sound.onDisk
  obtain ⟨wal, opened, -, ready, same, -⟩ :=
    WalHandle.openWal_grows sound.onDisk now
  let log := disk.log.recovered config.wal
  let memtable := replay config.store.compaction.jsonLen .new log
  have recovery : EngineDisk.recoverFromWal config.engine disk.log =
      .ok (disk.log, memtable) := by
    rw [EngineDisk.recoverFromWal, read]
    dsimp only [LoggedConfig.engine]
    rw [sound.log.sound.entriesToRecover_eq]
  have initialized : EngineDisk.initializeWal config.engine disk.log now =
      .ok (wal, memtable) := by
    have opened' : disk.log.openWal config.engine.wal now = .ok wal := opened
    rw [EngineDisk.initializeWal, recovery]
    dsimp only
    rw [opened']
  have holds : ∀ key, memtable.data[key]? = lastWrite (writesOf log) key := by
    intro key
    rw [replay_get, Memtable.new_get, Option.or_none]
  obtain ⟨said, ⟨tree, contents, startable, rfl⟩, applied⟩ := sound.tables
  obtain ⟨tree', follows⟩ := startable.follows isSnappy resilient levels
    (sound.log.replay_writable config.store.compaction.jsonLen)
  rw [overlay_eq_applyWrites holds, applied] at follows
  refine ⟨⟨wal, Store.start config.store disk.dir memtable⟩, ?_, ?_⟩
  · rw [StoreDisk.openEngine, initialized]
    rfl
  · constructor
    case ready => exact ready
    case log =>
      rw [same]
      exact sound.log
    case follows =>
      rw [same]
      exact ⟨tree', contents, _, follows, applied⟩
    case logged =>
      intro key unlogged
      rw [same] at unlogged
      exact (holds key).trans unlogged

/-- After a start every read finds what is expected. -/
theorem StoreDisk.Sound.recovers (sound : disk.Sound config expected clock) :
    disk.Recovers config expected := by
  obtain ⟨said, ⟨tree, contents, startable, -⟩, -⟩ := sound.tables
  intro files now listed
  have there := sound.found isSnappy .nil
    (listed.trans (List.Perm.of_eq (List.append_nil _).symm))
    ((listed.map _).nodup_iff.mpr startable.names)
  obtain ⟨e, opened, openSound⟩ := there.opens isSnappy resilient levels now
  obtain ⟨tree, contents, durable, follows, -⟩ := openSound.follows
  exact ⟨e, opened,
    follows.reads isSnappy follows.holds.nothingHeld⟩

end

/-! ## Writes -/

/-- The memtable replays what the log records. -/
theorem Store.applyCall_active (config : StoreConfig) (store : Store)
    (call : WalCall) :
    (store.applyCall config call).active =
      replay config.compaction.jsonLen store.active call.entries := by
  cases call with
  | writeOperation key value now => rfl
  | writeDelete key now => rfl
  | batchWriteOperations items now =>
      rw [Store.applyCall, WalCall.entries]
      induction items generalizing store with
      | nil => rfl
      | cons item items inductionHypothesis =>
          rw [List.foldl_cons, inductionHypothesis]
          rfl

theorem Follows.applyCall {config : StoreConfig} {store : Store}
    {tree : LsmTree} {contents : List FileContent}
    {current durable : String → Option Value}
    (follows : Follows config store tree contents current durable)
    {call : WalCall}
    (writable : ∀ write ∈ writesOf call.entries, Writable write.1 write.2) :
    ∃ tree', Follows config (store.applyCall config call) tree' contents
      (applyWrites current (writesOf call.entries)) durable := by
  cases call with
  | writeOperation key value now =>
      exact ⟨_, follows.put (writable (key, value) List.mem_cons_self)⟩
  | writeDelete key now =>
      exact ⟨_, follows.delete (writable (key, .null) List.mem_cons_self)⟩
  | batchWriteOperations items now =>
      rw [Store.applyCall, WalCall.entries]
      induction items generalizing store tree current with
      | nil => exact ⟨tree, follows⟩
      | cons item items inductionHypothesis =>
          exact inductionHypothesis
            (follows.put (writable item List.mem_cons_self))
            fun write member => writable write (List.mem_cons_of_mem _ member)

namespace LoggedStore.Sound

theorem write (sound : e.Sound config expected clock) {op : EngineOp}
    {call : WalCall} (made : op.call config.engine now = some call)
    (later : clock ≤ now)
    (admissible : WalHandle.Admissible config.wal e.wal.disk.engine call)
    (writable : ∀ write ∈ op.writes, Writable write.1 write.2) :
    ∃ wal, e.write config call =
        .ok ⟨wal, e.store.applyCall config.store call⟩ ∧
      Sound config ⟨wal, e.store.applyCall config.store call⟩
        (applyWrites expected op.writes) now := by
  obtain ⟨wal, called, grows⟩ := WalHandle.call_grows sound.ready admissible
  obtain ⟨writes, facts⟩ := EngineOp.call_entries made
  obtain ⟨tree, contents, durable, follows, applied⟩ := sound.follows
  rw [← writes] at writable
  obtain ⟨tree', follows'⟩ := follows.applyCall writable
  refine ⟨wal, ?_, ?_⟩
  · rw [LoggedStore.write, called]
    rfl
  · constructor
    case ready => exact grows.ready
    case log =>
      dsimp only
      rw [grows.recovered]
      exact sound.log.append later (fun entry member => (facts entry member).1)
        (fun entry member => (facts entry member).2) writable
    case follows =>
      refine ⟨tree', contents, durable, writes ▸ follows', ?_⟩
      dsimp only
      rw [grows.recovered, writesOf_append, applyWrites_append, applied,
        writes]
    case logged =>
      intro key unlogged
      dsimp only at unlogged
      rw [grows.recovered, writesOf_append, lastWrite_append,
        Option.or_eq_none_iff] at unlogged
      rw [Store.applyCall_active, replay_get, unlogged.1, Option.none_or]
      exact sound.logged key unlogged.2

theorem mono (sound : e.Sound config expected clock) (later : clock ≤ now) :
    e.Sound config expected now :=
  ⟨sound.ready, sound.log.mono later, sound.follows, sound.logged⟩

/-- A call of the log that adds no entry. -/
theorem withWal (sound : e.Sound config expected clock) {wal : WalHandle}
    (grows : WalHandle.Grows config.wal e.wal wal []) :
    Sound config ⟨wal, e.store⟩ expected clock := by
  have same := grows.recovered
  rw [List.append_nil] at same
  constructor
  case ready => exact grows.ready
  case log =>
    dsimp only
    rw [same]
    exact sound.log
  case follows =>
    dsimp only
    rw [same]
    exact sound.follows
  case logged =>
    dsimp only
    rw [same]
    exact sound.logged

/-! ## Flushes and compactions -/

/-- When the tables hold everything and the memtable nothing. -/
theorem of_flushed (sound : e.Sound config expected clock) {after : Store}
    (follows : ∃ tree contents,
      Follows config.store after tree contents expected expected)
    (empty : after.active = .new) :
    Sound config ⟨e.wal, after⟩ expected clock := by
  obtain ⟨tree, contents, durable, -, applied⟩ := sound.follows
  obtain ⟨tree', contents', follows'⟩ := follows
  refine ⟨sound.ready, sound.log, ⟨tree', contents', expected, follows',
    applyWrites_again applied⟩, fun key _ => ?_⟩
  rw [empty]
  exact Memtable.new_get key

theorem of_emptied {after : Store}
    (follows : ∃ tree contents,
      Follows config.store after tree contents expected expected)
    (empty : after.active = .new) {before wal : WalHandle}
    (emptied : WalHandle.Emptied config.wal before wal) :
    Sound config ⟨wal, after⟩ expected clock := by
  obtain ⟨tree, contents, follows⟩ := follows
  constructor
  case ready => exact emptied.ready
  case log =>
    dsimp only
    rw [emptied.recovered]
    exact LogKept.nil clock
  case follows =>
    refine ⟨tree, contents, expected, follows, ?_⟩
    dsimp only
    rw [emptied.recovered]
    rfl
  case logged =>
    intro key _
    rw [empty]
    exact Memtable.new_get key

end LoggedStore.Sound

theorem Store.flush_active {config : StoreConfig} {store after : Store}
    (flushed : store.flush config createdAt = .ok after) :
    after.active = .new := by
  rw [Store.flush] at flushed
  split at flushed
  · obtain ⟨table, -, checked⟩ := Fallible.bind_eq_ok_iff.mp flushed
    obtain ⟨-, -, made⟩ := Fallible.bind_eq_ok_iff.mp checked
    cases made
    rfl
  · cases flushed
    rfl

theorem Store.compactTables_active {config : StoreConfig}
    {store after : Store} {readings : OutputReadings}
    (compacted : store.compactTables config readings = .ok after) :
    after.active = store.active := by
  rw [Store.compactTables] at compacted
  dsimp only at compacted
  split at compacted
  · cases compacted
  · split at compacted
    · cases compacted
      rfl
    · split at compacted
      · cases compacted
        rfl
      · obtain ⟨outputs, -, made⟩ := Fallible.bind_eq_ok_iff.mp compacted
        cases made
        rfl

theorem LoggedStore.flushMemtable_cases {after : LoggedStore}
    (flushed : e.flushMemtable config createdAt = .ok after) :
    ∃ store, e.store.flush config.store createdAt = .ok store ∧
      after = ⟨e.wal, store⟩ := by
  obtain ⟨store, done, made⟩ := Fallible.bind_eq_ok_iff.mp flushed
  exact ⟨store, done, (Except.ok.inj made).symm⟩

section

variable
  (isSnappy : IsSnappy config.store.compressVec config.store.decompressVec)
  (resilient : config.store.load.sstable.enableResilientHandling = true)
  (levels : 0 < config.store.compaction.levelCount)

include isSnappy resilient levels

namespace LoggedStore.Sound

variable {after : LoggedStore} {store : Store}

theorem flushed_follows (sound : e.Sound config expected clock)
    (fits : FitsTable e.store)
    (flushed : e.store.flush config.store createdAt = .ok store) :
    ∃ tree contents,
      Follows config.store store tree contents expected expected := by
  obtain ⟨tree, contents, durable, follows, -⟩ := sound.follows
  obtain ⟨info, contents', after⟩ :=
    follows.flush isSnappy resilient levels fits flushed
  exact ⟨_, contents', after⟩

theorem flushMemtable (sound : e.Sound config expected clock)
    (fits : FitsTable e.store)
    (flushed : e.flushMemtable config createdAt = .ok after) :
    after.Sound config expected clock := by
  obtain ⟨store, done, rfl⟩ := flushMemtable_cases flushed
  exact sound.of_flushed
    (sound.flushed_follows isSnappy resilient levels fits done)
    (Store.flush_active done)

theorem compactAll (target : config.store.compaction.targetSize < 2 ^ 32)
    (sound : e.Sound config expected clock) (fits : FitsTable e.store)
    {readings : OutputReadings}
    (names : UnusedNames readings 1 0 e.store.dir)
    (compacted : e.compactAll config createdAt readings = .ok after) :
    after.Sound config expected clock := by
  obtain ⟨store, done, made⟩ := Fallible.bind_eq_ok_iff.mp compacted
  obtain ⟨tree, contents, durable, follows, -⟩ := sound.follows
  have follows' := follows.compactAll isSnappy resilient levels target fits
    names done
  obtain ⟨flushed, first, merged⟩ := Fallible.bind_eq_ok_iff.mp done
  cases made
  refine sound.of_flushed follows' ?_
  rw [Store.compactTables_active merged, Store.flush_active first]

theorem runCall (sound : e.Sound config expected clock) {op : EngineOp}
    (admitted : LoggedAdmitted config e clock now op) {call : WalCall}
    (made : op.call config.engine now = some call)
    (done : e.runCall config call createdAt = .ok after) :
    after.Sound config (applyWrites expected op.writes) now := by
  obtain ⟨wal, written, writtenSound⟩ := sound.write made admitted.later
    (admitted.admissible.1 call made) admitted.writable
  have fits := admitted.fits
  rw [LoggedStore.applied, made] at fits
  obtain ⟨other, first, rest⟩ := Fallible.bind_eq_ok_iff.mp done
  cases written.symm.trans first
  rw [LoggedStore.checkMemtableFlush] at rest
  split at rest
  · exact writtenSound.flushMemtable isSnappy resilient levels fits rest
  · cases rest
    exact writtenSound

/-- `flush` empties the log when everything is in tables. -/
theorem flush (sound : e.Sound config expected clock)
    (fits : FitsTable e.store)
    (done : e.flush config now createdAt = .ok after) :
    after.Sound config expected clock := by
  obtain ⟨wal, synced, behind⟩ := Fallible.bind_eq_ok_iff.mp done
  obtain ⟨flushed, written, made⟩ := Fallible.bind_eq_ok_iff.mp behind
  obtain ⟨store, stored, rfl⟩ := flushMemtable_cases written
  cases made
  exact of_emptied
    (sound.flushed_follows isSnappy resilient levels fits stored)
    (Store.flush_active stored)
    (WalHandle.truncateAfterFlush_emptied wal now)

theorem shutdown (sound : e.Sound config expected clock)
    (fits : FitsTable e.store)
    (admits : WalHandle.AdmitsCheckpoint config.wal e.wal.disk.engine now)
    (done : e.shutdown config now createdAt = .ok after) :
    after.Sound config expected clock := by
  obtain ⟨wal, synced, grows⟩ := WalHandle.flush_grows sound.ready
  have background : e.shutdownBackgroundTasks config = wal := by
    rw [LoggedStore.shutdownBackgroundTasks, synced]
  rw [LoggedStore.shutdown, background] at done
  obtain ⟨flushed, written, behind⟩ := Fallible.bind_eq_ok_iff.mp done
  obtain ⟨store, stored, rfl⟩ := flushMemtable_cases written
  obtain ⟨closed, marked, made⟩ := Fallible.bind_eq_ok_iff.mp behind
  cases made
  rw [← grows.engine] at admits
  obtain ⟨closed', marked', emptied⟩ :=
    WalHandle.markCleanShutdown_emptied grows.ready admits
  cases marked.symm.trans marked'
  exact of_emptied
    (sound.flushed_follows isSnappy resilient levels fits stored)
    (Store.flush_active stored) emptied

theorem runOp (sound : e.Sound config expected clock) {op : EngineOp}
    (admitted : LoggedAdmitted config e clock now op)
    (done : e.runOp config op now createdAt = some after) :
    after.Sound config (applyWrites expected op.writes) now := by
  have called : ((op.call config.engine now).bind fun call =>
      (e.runCall config call createdAt).toOption) = some after →
        after.Sound config (applyWrites expected op.writes) now := by
    intro result
    obtain ⟨call, made, ran⟩ := Option.bind_eq_some_iff.mp result
    exact sound.runCall isSnappy resilient levels admitted made
      (Fallible.toOption_eq_some_iff.mp ran)
  cases op with
  | put key value => exact called done
  | delete key => exact called done
  | batchPut items => exact called done
  | forceFlush =>
      exact (sound.flushMemtable isSnappy resilient levels admitted.fits
        (Fallible.toOption_eq_some_iff.mp done)).mono admitted.later
  | flush =>
      exact (sound.flush isSnappy resilient levels admitted.fits
        (Fallible.toOption_eq_some_iff.mp done)).mono admitted.later
  | shutdown =>
      exact (sound.shutdown isSnappy resilient levels admitted.fits
        (admitted.admissible.2 rfl)
        (Fallible.toOption_eq_some_iff.mp done)).mono admitted.later

end LoggedStore.Sound

end

end

end F4kvsLsm
