import F4kvsLsm.Engine.DurableRuns
import F4kvsLsm.Engine.StoreRuns

/-!
# An engine whose log and tables are files

The engine on its disk, as far as its bytes: the log on one side, the files of
the tables and of the sequence number on the other.  The process may stop
between any two operations, and inside an operation between any two steps that
it takes in the file system.  A start then finds what is left, in any order and
beside other files.

Flushes succeed and no compaction runs by itself.  The removal loop of a
truncation is one step, and a manual compaction is not cut off behind its first
output.
-/

namespace F4kvsLsm

open ByteCodec TableFile

/-- What an engine is configured with. -/
structure LoggedConfig where
  wal : WalConfig
  allowRecoveryFailure : Bool
  maxSize : Nat
  maxBatchSize : Nat
  store : StoreConfig

/-- The configuration without the files of the tables. -/
def LoggedConfig.engine (config : LoggedConfig) : EngineConfig where
  wal := config.wal
  allowRecoveryFailure := config.allowRecoveryFailure
  tree := config.store.compaction
  maxSize := config.maxSize
  maxBatchSize := config.maxBatchSize

/-- What survives a crash. -/
structure StoreDisk where
  log : WalDisk
  dir : TableDirectory

structure LoggedStore where
  wal : WalHandle
  store : Store

def LoggedStore.disk (e : LoggedStore) : StoreDisk := ⟨e.wal.disk, e.store.dir⟩

/-- `LsmTreeEngine::new` on an existing directory. -/
def StoreDisk.openEngine (config : LoggedConfig) (disk : StoreDisk)
    (now : UInt64) : Except LsmError LoggedStore := do
  let (wal, memtable) ←
    EngineDisk.initializeWal config.engine disk.log now
  return ⟨wal, Store.start config.store disk.dir memtable⟩

/-! ## Operations -/

/-- What the writes of a call do to the memtable. -/
def Store.applyCall (config : StoreConfig) (store : Store) : WalCall → Store
  | .writeOperation key value _ => store.put config key value
  | .writeDelete key _ => store.delete config key
  | .batchWriteOperations items _ =>
      items.foldl (fun store item => store.put config item.1 item.2) store

namespace LoggedStore

variable (config : LoggedConfig)

/-- `flush_memtable`, without the compaction that may follow it. -/
def flushMemtable (e : LoggedStore) (createdAt : UInt64) :
    Except LsmError LoggedStore := do
  let store ← e.store.flush config.store createdAt
  return ⟨e.wal, store⟩

def checkMemtableFlush (e : LoggedStore) (createdAt : UInt64) :
    Except LsmError LoggedStore :=
  if e.store.active.size ≥ config.maxSize then
    e.flushMemtable config createdAt
  else .ok e

/-- The log first, then the memtable. -/
def write (e : LoggedStore) (call : WalCall) : Except LsmError LoggedStore := do
  let wal ← e.wal.call config.wal call
  return ⟨wal, e.store.applyCall config.store call⟩

/-- `flush`; the log is truncated only after the memtable. -/
def flush (e : LoggedStore) (now createdAt : UInt64) :
    Except LsmError LoggedStore := do
  let wal ← e.wal.flush config.wal
  let flushed ← flushMemtable config ⟨wal, e.store⟩ createdAt
  return ⟨flushed.wal.truncateAfterFlush config.wal now, flushed.store⟩

/-- The log behind `shutdown_background_tasks`, which goes on when its flush
fails. -/
def shutdownBackgroundTasks (e : LoggedStore) : WalHandle :=
  match e.wal.flush config.wal with
  | .ok wal => wal
  | .error _ => e.wal

def shutdown (e : LoggedStore) (now createdAt : UInt64) :
    Except LsmError LoggedStore := do
  let flushed ← flushMemtable config
    ⟨e.shutdownBackgroundTasks config, e.store⟩ createdAt
  let wal ← flushed.wal.markCleanShutdown config.wal now
  return ⟨wal, flushed.store⟩

/-- A put, a deletion or a batch. -/
def runCall (e : LoggedStore) (call : WalCall) (createdAt : UInt64) :
    Except LsmError LoggedStore := do
  let written ← e.write config call
  written.checkMemtableFlush config createdAt

/-- `compact_all`, which leaves the log as it is. -/
def compactAll (e : LoggedStore) (createdAt : UInt64)
    (readings : OutputReadings) : Except LsmError LoggedStore := do
  let store ← e.store.compactAll config.store createdAt readings
  return ⟨e.wal, store⟩

/-- The engine behind the memtable of an operation, which is flushed then. -/
def applied (e : LoggedStore) (op : EngineOp) (now : UInt64) : Store :=
  match op.call config.engine now with
  | some call => e.store.applyCall config.store call
  | none => e.store

/-- One operation; nothing comes back where it returns an error. -/
def runOp (e : LoggedStore) (op : EngineOp) (now createdAt : UInt64) :
    Option LoggedStore :=
  match op with
  | .forceFlush => (e.flushMemtable config createdAt).toOption
  | .flush => (e.flush config now createdAt).toOption
  | .shutdown => (e.shutdown config now createdAt).toOption
  | write =>
      (write.call config.engine now).bind fun call =>
        (e.runCall config call createdAt).toOption

end LoggedStore

/-! ## What a crash leaves -/

/-- The directory at some point of a flush that goes well.  A file that was not
written to its end does not open. -/
inductive StoreFlushImage (config : StoreConfig) (store : Store) :
    TableDirectory → Prop
  | before : StoreFlushImage config store store.dir
  | writing {bytes : Bytes} {short : bytes.length < 2 ^ 63} :
      store.active.entryCount > 0 →
      (tryReadMetadata bytes).toOption = none →
      StoreFlushImage config store
        (store.dir.create ⟨(SstableName.flush 0
          (freePath store.dir.files (store.dir.files.length + 1)
            store.sequenceNumber)).fileName, bytes, short⟩)
  | complete {createdAt : UInt64} {after : Store} :
      store.flush config createdAt = .ok after →
      StoreFlushImage config store ⟨after.dir.files, store.dir.sequence⟩
  | persisted {createdAt : UInt64} {after : Store} :
      store.flush config createdAt = .ok after →
      StoreFlushImage config store after.dir

/-- The directory at some point of a manual compaction, up to its first
output. -/
inductive CompactionImage (config : StoreConfig) (store : Store)
    (readings : OutputReadings) : TableDirectory → Prop
  | flushing {dir : TableDirectory} :
      StoreFlushImage config store dir →
      CompactionImage config store readings dir
  | writing {createdAt : UInt64} {flushed : Store} {bytes : Bytes}
      {short : bytes.length < 2 ^ 63} :
      store.flush config createdAt = .ok flushed →
      (tryReadMetadata bytes).toOption = none →
      CompactionImage config store readings (flushed.dir.create
        ⟨(readings.name 1 0).fileName, bytes, short⟩)

/-- The disk at some point of an operation before it truncates the log. -/
inductive StoreCrashImage (config : LoggedConfig) (now : UInt64)
    (e : LoggedStore) : EngineOp → StoreDisk → Prop
  | before {op : EngineOp} : StoreCrashImage config now e op e.disk
  | logging {op : EngineOp} {call : WalCall} {m : FileWal}
      {dir : List WalFile} :
      op.call config.engine now = some call → e.wal = .segment m →
      LogImage config.wal call.entries m dir →
      StoreCrashImage config now e op ⟨.segment dir, e.store.dir⟩
  | logged {op : EngineOp} {call : WalCall} {written : LoggedStore} :
      op.call config.engine now = some call →
      e.write config call = .ok written →
      StoreCrashImage config now e op written.disk
  | filled {op : EngineOp} {call : WalCall} {written : LoggedStore}
      {dir : TableDirectory} :
      op.call config.engine now = some call →
      e.write config call = .ok written →
      written.store.active.size ≥ config.maxSize →
      StoreFlushImage config.store written.store dir →
      StoreCrashImage config now e op ⟨written.wal.disk, dir⟩
  | forced {dir : TableDirectory} :
      StoreFlushImage config.store e.store dir →
      StoreCrashImage config now e .forceFlush ⟨e.wal.disk, dir⟩
  | flushing {wal : WalHandle} {dir : TableDirectory} :
      e.wal.flush config.wal = .ok wal →
      StoreFlushImage config.store e.store dir →
      StoreCrashImage config now e .flush ⟨wal.disk, dir⟩
  | closing {dir : TableDirectory} :
      StoreFlushImage config.store e.store dir →
      StoreCrashImage config now e .shutdown
        ⟨(e.shutdownBackgroundTasks config).disk, dir⟩

/-- The disk at some point of a start. -/
inductive StoreOpenImage (config : LoggedConfig) :
    StoreDisk → StoreDisk → Prop
  | creating {dir : List WalFile} {files : TableDirectory} {now : UInt64}
      {cut : Nat} :
      StoreOpenImage config ⟨.segment dir, files⟩
        ⟨.segment (dir ++ [⟨FileWal.scanExistingSegments dir, now,
          (FileEngine.segment.encodeHeader
            (FileWal.newHeader config.wal now)).take cut⟩]), files⟩
  | initialized {disk : StoreDisk} {now : UInt64} {wal : WalHandle} :
      disk.log.openWal config.wal now = .ok wal →
      StoreOpenImage config disk ⟨wal.disk, disk.dir⟩
  | loaded {disk : StoreDisk} {now : UInt64} {e : LoggedStore} :
      disk.openEngine config now = .ok e →
      StoreOpenImage config disk e.disk

/-! ## Runs -/

inductive LoggedPhase where
  | down (disk : StoreDisk)
  | up (engine : LoggedStore)

/-- `clock` is the last reading of the clock that went into the log. -/
structure LoggedState where
  phase : LoggedPhase
  events : List EngineEvent
  clock : UInt64

/-- A disk with nothing on it. -/
def LoggedState.created (engine : WalEngine) : LoggedState :=
  ⟨.down ⟨.empty engine, ⟨[], none⟩⟩, [], 0⟩

/-- What the process leaves behind when it stops here. -/
def LoggedState.disk (state : LoggedState) : StoreDisk :=
  match state.phase with
  | .down disk => disk
  | .up e => e.disk

/-- An operation whose writes the log and a table can take. -/
structure LoggedAdmitted (config : LoggedConfig) (e : LoggedStore)
    (clock now : UInt64) (op : EngineOp) : Prop where
  later : clock ≤ now
  admissible : op.Admissible config.engine e.wal.disk.engine now
  writable : ∀ write ∈ op.writes, Writable write.1 write.2
  fits : FitsTable (e.applied config op now)

inductive LoggedStep (config : LoggedConfig) :
    LoggedState → LoggedState → Prop
  | reopen {log : WalDisk} {dir : TableDirectory}
      {files left : List StoredFile} {leftContents : List FileContent}
      {events : List EngineEvent} {clock now : UInt64} {e : LoggedStore} :
      List.Forall₂ (LeftOver config.store) left leftContents →
      files.Perm (dir.files ++ left) →
      (files.map (·.fileName)).Nodup →
      StoreDisk.openEngine config ⟨log, ⟨files, dir.sequence⟩⟩ now = .ok e →
      LoggedStep config ⟨.down ⟨log, dir⟩, events, clock⟩
        ⟨.up e, events, clock⟩
  | crashReopening {disk disk' : StoreDisk} {events : List EngineEvent}
      {clock : UInt64} :
      StoreOpenImage config disk disk' →
      LoggedStep config ⟨.down disk, events, clock⟩
        ⟨.down disk', events, clock⟩
  | acknowledged {e after : LoggedStore} {events : List EngineEvent}
      {clock now createdAt : UInt64} {op : EngineOp} :
      LoggedAdmitted config e clock now op →
      e.runOp config op now createdAt = some after →
      LoggedStep config ⟨.up e, events, clock⟩
        ⟨.up after, events ++ [.acknowledged op.writes], now⟩
  | refused {e : LoggedStore} {events : List EngineEvent}
      {clock : UInt64} {items : List (String × Value)} :
      items.length > config.maxBatchSize →
      LoggedStep config ⟨.up e, events, clock⟩
        ⟨.up e, events ++ [.unacknowledged items], clock⟩
  | compactAll {e after : LoggedStore} {events : List EngineEvent}
      {clock createdAt : UInt64} {readings : OutputReadings} :
      FitsTable e.store → UnusedNames readings 1 0 e.store.dir →
      e.compactAll config createdAt readings = .ok after →
      LoggedStep config ⟨.up e, events, clock⟩ ⟨.up after, events, clock⟩
  | crash {e : LoggedStore} {events : List EngineEvent}
      {clock now : UInt64} {op : EngineOp} {disk : StoreDisk} :
      LoggedAdmitted config e clock now op →
      StoreCrashImage config now e op disk →
      LoggedStep config ⟨.up e, events, clock⟩
        ⟨.down disk, events ++ [.unacknowledged op.writes], now⟩
  | crashTruncating {e : LoggedStore} {after : Store}
      {events : List EngineEvent} {clock createdAt : UInt64}
      {wal : WalHandle} {m : FileWal} {dir : List WalFile} :
      FitsTable e.store → e.wal.flush config.wal = .ok wal →
      e.store.flush config.store createdAt = .ok after →
      wal = .segment m → TruncationImage config.wal m dir →
      LoggedStep config ⟨.up e, events, clock⟩
        ⟨.down ⟨.segment dir, after.dir⟩, events, clock⟩
  | crashCompacting {e : LoggedStore} {events : List EngineEvent}
      {clock : UInt64} {readings : OutputReadings} {dir : TableDirectory} :
      FitsTable e.store → UnusedNames readings 1 0 e.store.dir →
      CompactionImage config.store e.store readings dir →
      LoggedStep config ⟨.up e, events, clock⟩
        ⟨.down ⟨e.wal.disk, dir⟩, events, clock⟩
  | stop {e : LoggedStore} {events : List EngineEvent} {clock : UInt64} :
      LoggedStep config ⟨.up e, events, clock⟩
        ⟨.down e.disk, events, clock⟩

/-- The engine starts, whatever the order of the files, and both reads find
what is expected. -/
def StoreDisk.Recovers (config : LoggedConfig) (disk : StoreDisk)
    (expected : String → Option Value) : Prop :=
  ∀ files now, files.Perm disk.dir.files → ∃ e,
    StoreDisk.openEngine config ⟨disk.log, ⟨files, disk.dir.sequence⟩⟩ now =
      .ok e ∧
    ∀ key, e.store.get config.store none key = expected key ∧
      e.store.tryGetSync config.store none key = .ok (expected key)

end F4kvsLsm
