import F4kvsLsm.Engine.DurableDisk

/-!
# What each step keeps

Of an open engine only its memtables and its directories matter to a later
start.  Every key of the active memtable has a record in the log, so a table
that a flush leaves behind never changes what the log and the tables add up
to; and what the log alone holds is in memory until a flush has written it.
-/

namespace F4kvsLsm

open KeyedLog Versions

namespace OpenEngine

/-- The memtables on top of all tables of the data directory. -/
def diskTree (e : OpenEngine) : LsmTree :=
  ⟨e.tree.active, e.tree.immutables, loadLevel e.data.tables,
    e.tree.sequenceNumber⟩

structure Sound (config : EngineConfig) (e : OpenEngine)
    (expected : String → Option Value) (clock : UInt64) : Prop where
  ready : e.wal.Ready config.wal
  disk : e.disk.Sound config expected clock
  upToDate : UpToDate config.tree e.diskTree expected
  logged : ∀ key,
    lastWrite (writesOf (e.wal.disk.recovered config.wal)) key = none →
      e.tree.active.data[key]? = none

/-- The keys that are only in parked memtables read from the tables alone as
they read with the log on top. -/
def ParkedRedundant (config : EngineConfig) (e : OpenEngine) : Prop :=
  ∀ memtable ∈ e.tree.immutables, ∀ key, memtable.data[key]? ≠ none →
    e.tree.active.data[key]? = none →
      getFromSstables config.tree.levelCount (loadLevel e.data.tables) key =
        acknowledged config.tree.levelCount (loadLevel e.data.tables)
          (e.wal.disk.recovered config.wal) key

end OpenEngine

section

variable {config : EngineConfig} {disk : EngineDisk} {e : OpenEngine}
variable {expected : String → Option Value} {clock now : UInt64}

/-! ## A start -/

theorem EngineDisk.Sound.opens
    (sound : disk.Sound config expected clock) (now : UInt64) :
    ∃ e, disk.openEngine config now = .ok e ∧ e.tree = e.diskTree ∧
      e.tree.immutables = [] ∧ e.Sound config expected clock := by
  have read := WalDisk.readEntriesForRecovery_onDisk sound.onDisk
  obtain ⟨wal, opened, -, ready, same, -⟩ :=
    WalHandle.openWal_grows sound.onDisk now
  let log := disk.log.recovered config.wal
  let memtable := replay config.tree.jsonLen .new log
  let loaded := loadExistingSstables disk.data.names disk.data.tables
    disk.data.sequenceFile
  have recovery : recoverFromWal config disk.log =
      .ok (disk.log, memtable) := by
    rw [recoverFromWal, read]
    simp only [sound.log.entriesToRecover_eq]
    rfl
  have holds : ∀ key, memtable.data[key]? = lastWrite (writesOf log) key := by
    intro key
    rw [replay_get, Memtable.new_get, Option.or_none]
  refine ⟨⟨wal, ⟨memtable, [], loaded.1, loaded.2⟩,
    { disk.data with sequenceFile := loaded.2 }⟩, ?_, rfl, rfl, ?_⟩
  · rw [openEngine, initializeWal, recovery]
    simp only [opened]
    rfl
  · have invariant : LsmTree.Invariant config.tree
        ⟨memtable, [], loadLevel disk.data.tables, loaded.2⟩ :=
      sound.data.invariant config.tree memtable [] fun table member _ name =>
        loadExistingSstables_above disk.data member name
    constructor
    case ready => exact ready
    case disk => exact sound.of_recovered ready.onDisk same rfl
    case upToDate =>
      constructor
      case invariant => exact invariant
      case active =>
        intro key value found
        rw [← sound.held key]
        exact (acknowledged_of_some ((holds key).symm.trans found)).symm
      case tables =>
        intro levels key missing
        have unlogged : lastWrite (writesOf log) key = none := by
          rw [← holds key]
          exact (memtableValue_cons_eq_none_iff.mp missing).1
        rw [← sound.held key]
        exact (acknowledged_of_none unlogged).symm
    case logged =>
      intro key unlogged
      rw [holds key]
      simp only [same] at unlogged
      exact unlogged

/-- Without parked memtables a tree reads what is expected. -/
theorem UpToDate.get
    {tree : LsmTree} (upToDate : UpToDate config.tree tree expected)
    (levels : 0 < config.tree.levelCount) (unparked : tree.immutables = [])
    (key : String) :
    tree.get config.tree.levelCount key = expected key := by
  refine (upToDate.get_eq_iff key).mpr fun _ => ⟨?_, ?_⟩
  · intro value parked
    rw [unparked] at parked
    exact absurd parked (by simp [memtableValue])
  · exact fun _ none => absurd none levels.ne'

theorem EngineDisk.Sound.recovers
    (sound : disk.Sound config expected clock)
    (levels : 0 < config.tree.levelCount) :
    disk.Recovers config expected := by
  intro now
  obtain ⟨e, opened, loaded, unparked, openSound⟩ := sound.opens now
  refine ⟨e, opened, ?_⟩
  rw [loaded]
  exact openSound.upToDate.get levels unparked

/-! ## Writes -/

theorem EngineOp.call_entries
    {op : EngineOp} {call : WalCall}
    (made : op.call config now = some call) :
    writesOf call.entries = op.writes ∧
      ∀ entry ∈ call.entries,
        entry.checkpoint? = none ∧ entry.timestamp = now := by
  cases op with
  | put key value =>
      obtain rfl := Option.some.inj made
      refine ⟨rfl, fun entry member => ?_⟩
      rw [List.mem_singleton.mp member]
      exact ⟨rfl, rfl⟩
  | delete key =>
      obtain rfl := Option.some.inj made
      refine ⟨rfl, fun entry member => ?_⟩
      rw [List.mem_singleton.mp member]
      exact ⟨rfl, rfl⟩
  | batchPut items =>
      rw [EngineOp.call] at made
      split at made
      · exact absurd made (by simp)
      · obtain rfl := Option.some.inj made
        constructor
        · rw [WalCall.entries, writesOf, List.filterMap_map]
          exact List.filterMap_some
        · intro entry member
          obtain ⟨item, -, rfl⟩ := List.mem_map.mp member
          exact ⟨rfl, rfl⟩
  | forceFlush => exact absurd made (by simp [EngineOp.call])
  | flush => exact absurd made (by simp [EngineOp.call])
  | shutdown => exact absurd made (by simp [EngineOp.call])

/-- The memtable replays what the log records. -/
theorem OpenEngine.applyCall_eq (tree : LsmTree) (call : WalCall) :
    applyCall config tree call =
      { tree with
        active := replay config.tree.jsonLen tree.active call.entries } := by
  cases call with
  | writeOperation key value now => rfl
  | writeDelete key now => rfl
  | batchWriteOperations items now =>
      rw [applyCall, WalCall.entries]
      induction items generalizing tree with
      | nil => rfl
      | cons item items inductionHypothesis =>
          rw [List.foldl_cons, inductionHypothesis]
          rfl

theorem UpToDate.applyCall
    {tree : LsmTree} (upToDate : UpToDate config.tree tree expected)
    (call : WalCall) :
    UpToDate config.tree (OpenEngine.applyCall config tree call)
      (applyWrites expected (writesOf call.entries)) := by
  cases call with
  | writeOperation key value now => exact upToDate.put key value
  | writeDelete key now => exact upToDate.delete key
  | batchWriteOperations items now =>
      rw [OpenEngine.applyCall, WalCall.entries]
      induction items generalizing tree expected with
      | nil => exact upToDate
      | cons item items inductionHypothesis =>
          exact inductionHypothesis (upToDate.put item.1 item.2)

theorem OpenEngine.Sound.write
    (sound : e.Sound config expected clock) {op : EngineOp} {call : WalCall}
    (made : op.call config now = some call) (later : clock ≤ now)
    (admissible : WalHandle.Admissible config.wal e.wal.disk.engine call) :
    ∃ written, e.write config call = .ok written ∧
      written.Sound config (applyWrites expected op.writes) now := by
  obtain ⟨wal, called, grows⟩ := WalHandle.call_grows sound.ready admissible
  obtain ⟨writes, facts⟩ := EngineOp.call_entries made
  have tree : applyCall config e.tree call = _ := applyCall_eq e.tree call
  have onDisk : applyCall config e.diskTree call = _ :=
    applyCall_eq e.diskTree call
  refine ⟨⟨wal, applyCall config e.tree call, e.data⟩, ?_, ?_⟩
  · rw [OpenEngine.write, called]
  · constructor
    case ready => exact grows.ready
    case disk =>
      rw [← writes]
      exact sound.disk.append grows.ready.onDisk grows.recovered
        sound.disk.data rfl later (fun entry member => (facts entry member).1)
        (fun entry member => (facts entry member).2)
    case upToDate =>
      have applied := sound.upToDate.applyCall call
      rw [onDisk] at applied
      rw [← writes, tree]
      exact applied
    case logged =>
      intro key unlogged
      simp only [grows.recovered, writesOf_append, lastWrite_append,
        Option.or_eq_none_iff] at unlogged
      simp only [tree]
      rw [replay_get, unlogged.1, Option.none_or]
      exact sound.logged key unlogged.2

/-! ## Flushes -/

namespace OpenEngine

theorem loadLevel_newTable (e : OpenEngine) (info : TableInfo) :
    loadLevel (e.data.tables ++ [e.newTable info]) =
      LsmTree.publish (loadLevel e.data.tables) (e.newTable info) :=
  loadLevel_append e.data.tables rfl

/-- The table of a flush adds nothing for a key without a record. -/
theorem Sound.tableWritten
    (sound : e.Sound config expected clock)
    (nonempty : e.tree.active.entryCount > 0) (info : TableInfo)
    (next : Nat) :
    EngineDisk.Sound config
      ⟨e.wal.disk, e.data.written (e.newTable info) next⟩ expected clock := by
  have invariant := sound.upToDate.invariant
  constructor
  case onDisk => exact sound.disk.onDisk
  case log => exact sound.disk.log
  case data => exact sound.disk.data.written invariant info nonempty rfl next
  case held =>
    intro key
    have before := sound.disk.held key
    cases last : lastWrite (writesOf
        (e.wal.disk.recovered config.wal)) key with
    | some value =>
        rw [acknowledged_of_some last]
        exact (acknowledged_of_some last).symm.trans before
    | none =>
        have same := invariant.getFromSstables_publish_other
          e.data.names info nonempty (sound.logged key last)
        rw [acknowledged_of_none last]
        simp only [DataDir.written, loadLevel_newTable]
        exact same.trans ((acknowledged_of_none last).symm.trans before)

theorem flushMemtable_of_empty
    (empty : ¬ e.tree.active.entryCount > 0) (run : FlushRun) :
    e.flushMemtable run =
      (⟨e.wal, { e.tree with active := .new }, e.data⟩, true) := by
  simp only [flushMemtable, dataAfterFlush, LsmTree.flushMemtableInternal,
    if_neg empty]

theorem flushMemtable_active (run : FlushRun) :
    (e.flushMemtable run).1.tree.active = .new :=
  LsmTree.flushMemtableInternal_active e.data.names run.info run.outcome
    e.tree

/-- A flush that succeeds has written its table. -/
theorem flushMemtable_done
    {run : FlushRun} (nonempty : e.tree.active.entryCount > 0)
    (done : (e.flushMemtable run).2 = true) : run.outcome = .done := by
  simp only [flushMemtable, LsmTree.flushMemtableInternal, if_pos nonempty]
    at done
  cases outcome : run.outcome with
  | done => rfl
  | failedWriting | failedOpening =>
      rw [outcome] at done
      exact absurd done (by simp)

theorem Sound.dataAfterFlush
    (sound : e.Sound config expected clock) (run : FlushRun) :
    EngineDisk.Sound config ⟨e.wal.disk, e.dataAfterFlush run⟩ expected
      clock := by
  have untouched : ∀ data : DataDir, data.tables = e.data.tables →
      EngineDisk.Sound config ⟨e.wal.disk, data⟩ expected clock :=
    fun data tables => sound.disk.of_recovered sound.disk.onDisk rfl tables
  rw [OpenEngine.dataAfterFlush]
  split
  · case isTrue nonempty =>
      cases run.outcome with
      | done => exact sound.tableWritten nonempty run.info _
      | failedOpening => exact sound.tableWritten nonempty run.info _
      | failedWriting =>
          cases run.created with
          | true => exact untouched _ rfl
          | false => exact sound.disk
  · exact sound.disk

theorem Sound.getFromSstables_dataAfterFlush
    (sound : e.Sound config expected clock) (run : FlushRun) {key : String}
    (notHere : e.tree.active.data[key]? = none) :
    getFromSstables config.tree.levelCount
      (loadLevel (e.dataAfterFlush run).tables) key =
        getFromSstables config.tree.levelCount (loadLevel e.data.tables)
          key := by
  rw [OpenEngine.dataAfterFlush]
  split
  · case isTrue nonempty =>
      have same := sound.upToDate.invariant.getFromSstables_publish_other
        e.data.names run.info nonempty notHere
      cases run.outcome with
      | done | failedOpening =>
          simp only [DataDir.written, loadLevel_newTable]
          exact same
      | failedWriting => cases run.created <;> rfl
  · rfl

/-- The memtables and the tables after a flush: a table whose opening failed
is on the disk although its memtable stays in memory. -/
theorem Sound.diskTree_flush
    (sound : e.Sound config expected clock) (run : FlushRun) :
    UpToDate config.tree (e.flushMemtable run).1.diskTree expected := by
  have flushed := fun outcome =>
    sound.upToDate.flush e.data.names run.info outcome
  by_cases nonempty : e.tree.active.entryCount > 0
  · have nonempty' : e.diskTree.active.entryCount > 0 := nonempty
    simp only [LsmTree.flushMemtableInternal, if_pos nonempty'] at flushed
    simp only [OpenEngine.diskTree, flushMemtable, OpenEngine.dataAfterFlush,
      LsmTree.flushMemtableInternal, if_pos nonempty]
    cases run.outcome with
    | done =>
        simp only [DataDir.written, loadLevel_newTable]
        exact flushed .done
    | failedOpening =>
        simp only [DataDir.written, loadLevel_newTable]
        refine ⟨(flushed .done).invariant.advance _ _ le_rfl,
          (flushed .failedOpening).active, ?_⟩
        intro levels key missing
        have absent : memtableValue [e.tree.active] key = none :=
          (memtableValue_append_eq_none_iff.mp
            (memtableValue_cons_eq_none_iff.mp missing).2).2
        have notHere := (memtableValue_cons_eq_none_iff.mp absent).1
        rw [← (flushed .failedOpening).tables levels key missing]
        exact sound.upToDate.invariant.getFromSstables_publish_other
          e.data.names run.info nonempty notHere
    | failedWriting =>
        cases run.created with
        | true => exact flushed .failedWriting
        | false => exact flushed .failedWriting
  · have nonempty' : ¬ e.diskTree.active.entryCount > 0 := nonempty
    simp only [LsmTree.flushMemtableInternal, if_neg nonempty'] at flushed
    rw [flushMemtable_of_empty nonempty]
    exact flushed .done

theorem Sound.flushMemtable
    (sound : e.Sound config expected clock) (run : FlushRun) :
    (e.flushMemtable run).1.Sound config expected clock := by
  constructor
  case ready => exact sound.ready
  case disk => exact sound.dataAfterFlush run
  case upToDate => exact sound.diskTree_flush run
  case logged =>
    intro key _
    rw [flushMemtable_active]
    exact Memtable.new_get key

/-! ## Truncations -/

/-- After a flush that writes its table the tables hold everything, when the
parked memtables have nothing to add. -/
theorem Sound.tables_hold_of_written
    (sound : e.Sound config expected clock)
    (levels : 0 < config.tree.levelCount) {run : FlushRun}
    (written : e.tree.active.entryCount > 0 → run.outcome ≠ .failedWriting)
    (redundant : e.ParkedRedundant config) (key : String) :
    getFromSstables config.tree.levelCount
      (loadLevel (e.dataAfterFlush run).tables) key = expected key := by
  have unflushed : e.tree.active.data[key]? = none →
      getFromSstables config.tree.levelCount
        (loadLevel (e.dataAfterFlush run).tables) key = expected key := by
    intro notHere
    rw [sound.getFromSstables_dataAfterFlush run notHere]
    by_cases parked :
        ∃ memtable ∈ e.tree.immutables, memtable.data[key]? ≠ none
    · obtain ⟨memtable, member, found⟩ := parked
      exact (redundant memtable member key found notHere).trans
        (sound.disk.held key)
    · have notParked : memtableValue e.tree.immutables key = none := by
        rw [memtableValue, List.findSome?_eq_none_iff]
        intro memtable member
        by_contra found
        exact parked ⟨memtable, member, found⟩
      exact sound.upToDate.tables levels key
        (memtableValue_cons_eq_none_iff.mpr ⟨notHere, notParked⟩)
  cases here : e.tree.active.data[key]? with
  | none => exact unflushed here
  | some value =>
      have nonempty : e.tree.active.entryCount > 0 := by
        by_contra empty
        rw [Memtable.get_of_entryCount empty] at here
        exact absurd here (by simp)
      have published := sound.upToDate.invariant.getFromSstables_publish
        levels e.data.names run.info here
      rw [OpenEngine.dataAfterFlush, if_pos nonempty,
        ← sound.upToDate.active key value here]
      cases outcome : run.outcome with
      | done | failedOpening =>
          simp only [DataDir.written, loadLevel_newTable]
          exact published
      | failedWriting => exact absurd outcome (written nonempty)

theorem Sound.tables_hold
    (sound : e.Sound config expected clock)
    (levels : 0 < config.tree.levelCount) {run : FlushRun}
    (done : (e.flushMemtable run).2 = true)
    (redundant : e.ParkedRedundant config) (key : String) :
    getFromSstables config.tree.levelCount
      (loadLevel (e.dataAfterFlush run).tables) key = expected key := by
  refine sound.tables_hold_of_written levels ?_ redundant key
  intro nonempty
  rw [flushMemtable_done nonempty done]
  simp

theorem Sound.truncated
    (sound : e.Sound config expected clock)
    (levels : 0 < config.tree.levelCount) {run : FlushRun}
    (done : (e.flushMemtable run).2 = true)
    (redundant : e.ParkedRedundant config) {wal : WalHandle}
    (emptied : WalHandle.Emptied config.wal e.wal wal) :
    Sound config ⟨wal, (e.flushMemtable run).1.tree,
      (e.flushMemtable run).1.data⟩ expected clock := by
  have flushed := sound.flushMemtable run
  constructor
  case ready => exact emptied.ready
  case disk =>
    exact .of_tables emptied.ready.onDisk emptied.recovered flushed.disk.data
      (sound.tables_hold levels done redundant)
  case upToDate => exact flushed.upToDate
  case logged =>
    intro key _
    rw [flushMemtable_active]
    exact Memtable.new_get key

/-! ## Operations -/

theorem Sound.mono
    (sound : e.Sound config expected clock) (later : clock ≤ now) :
    e.Sound config expected now :=
  ⟨sound.ready, sound.disk.mono later, sound.upToDate, sound.logged⟩

/-- Of the log only the entries matter. -/
theorem Sound.rewired
    (sound : e.Sound config expected clock) {wal : WalHandle}
    (ready : wal.Ready config.wal)
    (same : wal.disk.recovered config.wal =
      e.wal.disk.recovered config.wal) :
    Sound config ⟨wal, e.tree, e.data⟩ expected clock := by
  constructor
  case ready => exact ready
  case disk => exact sound.disk.of_recovered ready.onDisk same rfl
  case upToDate => exact sound.upToDate
  case logged =>
    intro key unlogged
    simp only [same] at unlogged
    exact sound.logged key unlogged

/-- A call of the log that adds no entry. -/
theorem Sound.withWal
    (sound : e.Sound config expected clock) {wal : WalHandle}
    (grows : WalHandle.Grows config.wal e.wal wal []) :
    Sound config ⟨wal, e.tree, e.data⟩ expected clock := by
  have same := grows.recovered
  rw [List.append_nil] at same
  exact sound.rewired grows.ready same

theorem ParkedRedundant.withWal
    (redundant : e.ParkedRedundant config) {wal : WalHandle}
    (grows : WalHandle.Grows config.wal e.wal wal []) :
    ParkedRedundant config ⟨wal, e.tree, e.data⟩ := by
  have same := grows.recovered
  rw [List.append_nil] at same
  intro memtable member key found notHere
  simp only [same]
  exact redundant memtable member key found notHere

/-- A truncation that this operation reaches finds nothing to lose. -/
def SafeToTruncate (config : EngineConfig) (e : OpenEngine) (op : EngineOp)
    (run : FlushRun) : Prop :=
  op = .flush ∨ op = .shutdown → (e.flushMemtable run).2 = true →
    e.ParkedRedundant config

theorem Sound.checkMemtableFlush
    (sound : e.Sound config expected clock) (run : FlushRun) :
    (e.checkMemtableFlush config run).1.Sound config expected clock := by
  rw [OpenEngine.checkMemtableFlush]
  split
  · exact sound.flushMemtable run
  · exact sound

theorem flush_failed
    {wal : WalHandle} (synced : e.wal.flush config.wal = .ok wal)
    (now : UInt64) {run : FlushRun}
    (failed : (e.flushMemtable run).2 = false) :
    e.flush config now run =
      ((OpenEngine.flushMemtable ⟨wal, e.tree, e.data⟩ run).1, false) := by
  have result : OpenEngine.flushMemtable ⟨wal, e.tree, e.data⟩ run =
      (⟨wal, (e.flushMemtable run).1.tree, (e.flushMemtable run).1.data⟩,
        false) := Prod.ext rfl failed
  rw [OpenEngine.flush, synced]
  simp only [result]

theorem flush_done
    {wal : WalHandle} (synced : e.wal.flush config.wal = .ok wal)
    (now : UInt64) {run : FlushRun}
    (done : (e.flushMemtable run).2 = true) :
    e.flush config now run =
      (⟨wal.truncateAfterFlush config.wal now,
        (e.flushMemtable run).1.tree, (e.flushMemtable run).1.data⟩,
        true) := by
  have result : OpenEngine.flushMemtable ⟨wal, e.tree, e.data⟩ run =
      (⟨wal, (e.flushMemtable run).1.tree, (e.flushMemtable run).1.data⟩,
        true) := Prod.ext rfl done
  rw [OpenEngine.flush, synced]
  simp only [result]

theorem Sound.flush
    (sound : e.Sound config expected clock)
    (levels : 0 < config.tree.levelCount) (now : UInt64) {run : FlushRun}
    (safe : e.SafeToTruncate config .flush run) :
    (e.flush config now run).1.Sound config expected clock := by
  obtain ⟨wal, synced, grows⟩ := WalHandle.flush_grows sound.ready
  have syncedSound := sound.withWal grows
  cases done : (e.flushMemtable run).2 with
  | false =>
      rw [flush_failed synced now done]
      exact syncedSound.flushMemtable run
  | true =>
      have redundant := (safe (Or.inl rfl) done).withWal grows
      rw [flush_done synced now done]
      exact syncedSound.truncated levels done redundant
        (WalHandle.truncateAfterFlush_emptied wal now)

theorem Sound.shutdown
    (sound : e.Sound config expected clock)
    (levels : 0 < config.tree.levelCount) {now : UInt64} {run : FlushRun}
    (safe : e.SafeToTruncate config .shutdown run)
    (admits : WalHandle.AdmitsCheckpoint config.wal e.wal.disk.engine now) :
    (e.shutdown config now run).1.Sound config expected clock := by
  obtain ⟨wal, synced, grows⟩ := WalHandle.flush_grows sound.ready
  have syncedSound := sound.withWal grows
  cases done : (e.flushMemtable run).2 with
  | false =>
      have result : OpenEngine.flushMemtable ⟨wal, e.tree, e.data⟩ run =
          (⟨wal, (e.flushMemtable run).1.tree,
            (e.flushMemtable run).1.data⟩, false) := Prod.ext rfl done
      simp only [OpenEngine.shutdown, shutdownBackgroundTasks, synced,
        result]
      exact syncedSound.flushMemtable run
  | true =>
      rw [← grows.engine] at admits
      obtain ⟨closedWal, closed, emptied⟩ :=
        WalHandle.markCleanShutdown_emptied grows.ready admits
      have redundant := (safe (Or.inr rfl) done).withWal grows
      have result : OpenEngine.flushMemtable ⟨wal, e.tree, e.data⟩ run =
          (⟨wal, (e.flushMemtable run).1.tree,
            (e.flushMemtable run).1.data⟩, true) := Prod.ext rfl done
      simp only [OpenEngine.shutdown, shutdownBackgroundTasks, synced,
        result, closed]
      exact syncedSound.truncated levels done redundant emptied

theorem Sound.runCall
    (sound : e.Sound config expected clock) {op : EngineOp}
    (later : clock ≤ now)
    (admissible : op.Admissible config e.wal.disk.engine now)
    (run : FlushRun) :
    ∃ front, front <+: op.writes ∧
      ((e.runCall config op now run).2 = true → front = op.writes) ∧
      (e.runCall config op now run).1.Sound config
        (applyWrites expected front) now := by
  rw [OpenEngine.runCall]
  cases made : op.call config now with
  | none =>
      exact ⟨[], List.nil_prefix, fun done => absurd done (by simp),
        sound.mono later⟩
  | some call =>
      obtain ⟨written, logged, writtenSound⟩ :=
        sound.write made later (admissible.1 call made)
      simp only [runWrite, logged]
      exact ⟨op.writes, List.prefix_rfl, fun _ => rfl,
        writtenSound.checkMemtableFlush run⟩

/-! ### The memory tree -/

section

variable (holds : LsmTree → Prop) {run : FlushRun}

theorem checkMemtableFlush_tree
    (flush : ∀ tree existing, holds tree →
      holds (tree.flushMemtableInternal existing run.info run.outcome).1)
    (initially : holds e.tree) :
    holds (e.checkMemtableFlush config run).1.tree := by
  rw [OpenEngine.checkMemtableFlush]
  split
  · exact flush e.tree e.data.names initially
  · exact initially

/-- What flushes and the call of an operation keep, the operation keeps. -/
theorem runOp_tree
    {op : EngineOp}
    (flush : ∀ tree existing, holds tree →
      holds (tree.flushMemtableInternal existing run.info run.outcome).1)
    (apply : ∀ tree call, op.call config now = some call → holds tree →
      holds (applyCall config tree call))
    (initially : holds e.tree) :
    holds (e.runOp config op now run).1.tree := by
  have flushed : ∀ wal, holds
      (flushMemtable ⟨wal, e.tree, e.data⟩ run).1.tree :=
    fun wal => flush e.tree e.data.names initially
  have called : holds (e.runCall config op now run).1.tree := by
    rw [runCall]
    cases made : op.call config now with
    | none => exact initially
    | some call =>
        simp only [runWrite, OpenEngine.write]
        cases e.wal.call config.wal call with
        | error error => exact initially
        | ok wal =>
            exact checkMemtableFlush_tree holds flush
              (apply e.tree call made initially)
  cases op with
  | put key value => exact called
  | delete key => exact called
  | batchPut items => exact called
  | forceFlush => exact flush e.tree e.data.names initially
  | flush =>
      simp only [OpenEngine.runOp, OpenEngine.flush]
      cases e.wal.flush config.wal with
      | error error => exact initially
      | ok wal =>
          have kept := flushed wal
          simp only
          revert kept
          generalize flushMemtable ⟨wal, e.tree, e.data⟩ run = result
          intro kept
          cases result with
          | mk after success => cases success <;> exact kept
  | shutdown =>
      have kept := flushed (e.shutdownBackgroundTasks config)
      simp only [OpenEngine.runOp, OpenEngine.shutdown]
      revert kept
      generalize flushMemtable
        ⟨e.shutdownBackgroundTasks config, e.tree, e.data⟩ run = result
      intro kept
      cases result with
      | mk after success =>
          cases success with
          | false => exact kept
          | true =>
              simp only
              cases after.wal.markCleanShutdown config.wal now with
              | error error => exact kept
              | ok wal => exact kept

end

/-! ### Operations on the disk -/

/-- What an operation does to an open engine: a success has done all of its
writes, and a failure some first of them. -/
theorem Sound.runOp
    (sound : e.Sound config expected clock)
    (levels : 0 < config.tree.levelCount) {op : EngineOp} {run : FlushRun}
    (later : clock ≤ now)
    (admissible : op.Admissible config e.wal.disk.engine now)
    (safe : e.SafeToTruncate config op run) :
    ∃ front, front <+: op.writes ∧
      ((e.runOp config op now run).2 = true → front = op.writes) ∧
      (e.runOp config op now run).1.Sound config
        (applyWrites expected front) now := by
  cases op with
  | put key value => exact sound.runCall later admissible run
  | delete key => exact sound.runCall later admissible run
  | batchPut items => exact sound.runCall later admissible run
  | forceFlush =>
      exact ⟨[], List.nil_prefix, fun _ => rfl,
        (sound.flushMemtable run).mono later⟩
  | flush =>
      exact ⟨[], List.nil_prefix, fun _ => rfl,
        (sound.flush levels now safe).mono later⟩
  | shutdown =>
      exact ⟨[], List.nil_prefix, fun _ => rfl,
        (sound.shutdown levels safe (admissible.2 rfl)).mono later⟩

end OpenEngine

end

end F4kvsLsm
