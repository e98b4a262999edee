import F4kvsLsm.Lib.Runs
import F4kvsLsm.Core.Load
import F4kvsLsm.Core.Truncation
import F4kvsLsm.Engine.History
import F4kvsLsm.Wal.CrashImages
import F4kvsLsm.Wal.Shutdown

/-!
# The engine on its disk

One caller opens the engine on a data directory and a log, writes, flushes
and shuts it down.  A flush may fail, and the process may stop between any
two operations and, with the segment log, between any two steps that an
operation takes in the file system.  What is left is opened again.

The removal loop of a truncation is one step here, and there is neither a
compaction nor a cleanup of old segments.
-/

namespace F4kvsLsm

/-- The parts of `LsmConfig` that are read. -/
structure EngineConfig where
  wal : WalConfig
  allowRecoveryFailure : Bool
  tree : CompactionConfig
  maxSize : Nat
  maxBatchSize : Nat

/-- The tables that open, the names of the files that do not, and the number
in the file `SEQUENCE`. -/
structure DataDir where
  tables : List SSTable
  torn : List SstableName
  sequenceFile : Nat

def DataDir.names (data : DataDir) : List SstableName :=
  data.tables.map (·.name) ++ data.torn

/-- A new table and the counter behind it. -/
def DataDir.written (data : DataDir) (table : SSTable) (next : Nat) :
    DataDir :=
  { data with tables := data.tables ++ [table], sequenceFile := next }

/-- What survives a crash. -/
structure EngineDisk where
  log : WalDisk
  data : DataDir

structure OpenEngine where
  wal : WalHandle
  tree : LsmTree
  data : DataDir

def OpenEngine.disk (e : OpenEngine) : EngineDisk := ⟨e.wal.disk, e.data⟩

/-! ## Opening -/

namespace EngineDisk

/-- `recover_from_wal`: the log afterwards and the memtable. -/
def recoverFromWal (config : EngineConfig) (log : WalDisk) :
    Except LsmError (WalDisk × Memtable) :=
  match log.readEntriesForRecovery config.wal with
  | .ok entries =>
      .ok (log, replay config.tree.jsonLen .new (entriesToRecover entries))
  | .error error =>
      if config.allowRecoveryFailure then .ok (.empty log.engine, .new)
      else .error (.wal ("Failed to read WAL entries during recovery: " ++
        error.display))

def initializeWal (config : EngineConfig) (log : WalDisk) (now : UInt64) :
    Except LsmError (WalHandle × Memtable) :=
  match recoverFromWal config log with
  | .error error =>
      .error (.wal ("CRITICAL: WAL recovery failed, refusing to start " ++
        "engine. Recent writes may be lost if recovery cannot complete. " ++
        "Error: " ++ error.display ++ ". If this is intentional (e.g., for " ++
        "development/testing), set wal.allow_recovery_failure=true in " ++
        "configuration. WARNING: Enabling allow_recovery_failure may " ++
        "result in data loss."))
  | .ok (log, memtable) =>
      match log.openWal config.wal now with
      | .ok wal => .ok (wal, memtable)
      | .error error =>
          .error (.wal ("Failed to initialize WAL: " ++ error.display))

/-- `LsmTreeEngine::new` on an existing directory, where every table opens. -/
def openEngine (config : EngineConfig) (disk : EngineDisk) (now : UInt64) :
    Except LsmError OpenEngine :=
  match initializeWal config disk.log now with
  | .error error => .error error
  | .ok (wal, memtable) =>
      let loaded := loadExistingSstables disk.data.names disk.data.tables
        disk.data.sequenceFile
      .ok ⟨wal, ⟨memtable, [], loaded.1, loaded.2⟩,
        { disk.data with sequenceFile := loaded.2 }⟩

end EngineDisk

/-! ## Operations -/

inductive EngineOp where
  | put (key : String) (value : Value)
  | delete (key : String)
  | batchPut (items : List (String × Value))
  | forceFlush
  | flush
  | shutdown

namespace EngineOp

/-- What an operation writes; `Null` marks a deletion. -/
def writes : EngineOp → List (String × Value)
  | .put key value => [(key, value)]
  | .delete key => [(key, .null)]
  | .batchPut items => items
  | _ => []

/-- The call of the log that an operation makes. -/
def call (config : EngineConfig) (now : UInt64) : EngineOp → Option WalCall
  | .put key value => some (.writeOperation key value now)
  | .delete key => some (.writeDelete key now)
  | .batchPut items =>
      if items.length > config.maxBatchSize then none
      else some (.batchWriteOperations items now)
  | _ => none

end EngineOp

/-- How the flush of a memtable goes; a failed write may have created its
file. -/
structure FlushRun where
  info : TableInfo
  outcome : FlushOutcome
  created : Bool

namespace OpenEngine

variable (config : EngineConfig)

/-- The table that a flush of the active memtable writes. -/
def newTable (e : OpenEngine) (info : TableInfo) : SSTable :=
  LsmTree.flushedTable e.data.names info e.tree

def dataAfterFlush (e : OpenEngine) (run : FlushRun) : DataDir :=
  if e.tree.active.entryCount > 0 then
    match run.outcome with
    | .failedWriting =>
        if run.created then
          { e.data with torn := (e.newTable run.info).name :: e.data.torn }
        else e.data
    | _ =>
        e.data.written (e.newTable run.info)
          (LsmTree.sequenceAfterFlush e.data.names e.tree)
  else e.data

/-- `flush_memtable_internal`; `true` is a success. -/
def flushMemtable (e : OpenEngine) (run : FlushRun) : OpenEngine × Bool :=
  let flushed :=
    e.tree.flushMemtableInternal e.data.names run.info run.outcome
  (⟨e.wal, flushed.1, e.dataAfterFlush run⟩, flushed.2)

def checkMemtableFlush (e : OpenEngine) (run : FlushRun) :
    OpenEngine × Bool :=
  if e.tree.active.size ≥ config.maxSize then e.flushMemtable run
  else (e, true)

/-- What the writes of a call do to the memtable. -/
def applyCall (tree : LsmTree) : WalCall → LsmTree
  | .writeOperation key value _ => tree.put config.tree.jsonLen key value
  | .writeDelete key _ => tree.delete config.tree.jsonLen key
  | .batchWriteOperations items _ =>
      items.foldl
        (fun tree item => tree.put config.tree.jsonLen item.1 item.2) tree

/-- The log first, then the memtable. -/
def write (e : OpenEngine) (call : WalCall) : Except LsmError OpenEngine :=
  match e.wal.call config.wal call with
  | .ok wal => .ok ⟨wal, applyCall config e.tree call, e.data⟩
  | .error error => .error error

def runWrite (e : OpenEngine) (call : WalCall) (run : FlushRun) :
    OpenEngine × Bool :=
  match e.write config call with
  | .ok written => written.checkMemtableFlush config run
  | .error _ => (e, false)

/-- `flush`; the log is truncated only after the memtable. -/
def flush (e : OpenEngine) (now : UInt64) (run : FlushRun) :
    OpenEngine × Bool :=
  match e.wal.flush config.wal with
  | .error _ => (e, false)
  | .ok wal =>
      match flushMemtable ⟨wal, e.tree, e.data⟩ run with
      | (flushed, false) => (flushed, false)
      | (flushed, true) =>
          (⟨flushed.wal.truncateAfterFlush config.wal now, flushed.tree,
            flushed.data⟩, true)

/-- The log behind `shutdown_background_tasks`, which goes on when its flush
fails. -/
def shutdownBackgroundTasks (e : OpenEngine) : WalHandle :=
  match e.wal.flush config.wal with
  | .ok wal => wal
  | .error _ => e.wal

def shutdown (e : OpenEngine) (now : UInt64) (run : FlushRun) :
    OpenEngine × Bool :=
  match flushMemtable ⟨e.shutdownBackgroundTasks config, e.tree, e.data⟩
      run with
  | (flushed, false) => (flushed, false)
  | (flushed, true) =>
      match flushed.wal.markCleanShutdown config.wal now with
      | .ok wal => (⟨wal, flushed.tree, flushed.data⟩, true)
      | .error _ => (flushed, false)

/-- A put, a deletion or a batch. -/
def runCall (e : OpenEngine) (op : EngineOp) (now : UInt64)
    (run : FlushRun) : OpenEngine × Bool :=
  match op.call config now with
  | some call => e.runWrite config call run
  | none => (e, false)

/-- One operation; `true` is an acknowledgement. -/
def runOp (e : OpenEngine) (op : EngineOp) (now : UInt64) (run : FlushRun) :
    OpenEngine × Bool :=
  match op with
  | .forceFlush => e.flushMemtable run
  | .flush => e.flush config now run
  | .shutdown => e.shutdown config now run
  | write => e.runCall config write now run

end OpenEngine

/-! ## What a crash leaves -/

/-- The data directory at some point of a flush that goes well. -/
inductive FlushImage (e : OpenEngine) (info : TableInfo) : DataDir → Prop
  | before : FlushImage e info e.data
  | writing :
      e.tree.active.entryCount > 0 →
      FlushImage e info
        { e.data with torn := (e.newTable info).name :: e.data.torn }
  | complete :
      e.tree.active.entryCount > 0 →
      FlushImage e info (e.data.written (e.newTable info)
        e.data.sequenceFile)
  | persisted :
      e.tree.active.entryCount > 0 →
      FlushImage e info (e.data.written (e.newTable info)
        (LsmTree.sequenceAfterFlush e.data.names e.tree))

/-- The log directory before and after the removal loop of a truncation. -/
inductive TruncationImage (config : WalConfig) (m : FileWal) :
    List WalFile → Prop
  | closed : TruncationImage config m (FileWal.flush .segment m).dir
  | removed : TruncationImage config m []
  | created {now : UInt64} {cut : Nat} :
      TruncationImage config m
        [⟨m.counter, now, (FileEngine.segment.encodeHeader
          (FileWal.newHeader config now)).take cut⟩]

/-- The disk at some point of an operation before it truncates the log. -/
inductive CrashImage (config : EngineConfig) (now : UInt64)
    (e : OpenEngine) : EngineOp → EngineDisk → Prop
  | before {op : EngineOp} : CrashImage config now e op e.disk
  | logging {op : EngineOp} {call : WalCall} {m : FileWal}
      {dir : List WalFile} :
      op.call config now = some call → e.wal = .segment m →
      LogImage config.wal call.entries m dir →
      CrashImage config now e op ⟨.segment dir, e.data⟩
  | logged {op : EngineOp} {call : WalCall} {written : OpenEngine} :
      op.call config now = some call →
      e.write config call = .ok written →
      CrashImage config now e op written.disk
  | filled {op : EngineOp} {call : WalCall} {written : OpenEngine}
      {info : TableInfo} {data : DataDir} :
      op.call config now = some call →
      e.write config call = .ok written →
      written.tree.active.size ≥ config.maxSize →
      FlushImage written info data →
      CrashImage config now e op ⟨written.wal.disk, data⟩
  | forced {info : TableInfo} {data : DataDir} :
      FlushImage e info data →
      CrashImage config now e .forceFlush ⟨e.wal.disk, data⟩
  | flushing {wal : WalHandle} {info : TableInfo} {data : DataDir} :
      e.wal.flush config.wal = .ok wal →
      FlushImage ⟨wal, e.tree, e.data⟩ info data →
      CrashImage config now e .flush ⟨wal.disk, data⟩

/-- The disk at some point of a start. -/
inductive OpenImage (config : EngineConfig) : EngineDisk → EngineDisk → Prop
  | creating {dir : List WalFile} {data : DataDir} {now : UInt64}
      {cut : Nat} :
      OpenImage config ⟨.segment dir, data⟩
        ⟨.segment (dir ++ [⟨FileWal.scanExistingSegments dir, now,
          (FileEngine.segment.encodeHeader
            (FileWal.newHeader config.wal now)).take cut⟩]), data⟩
  | initialized {disk : EngineDisk} {now : UInt64} {wal : WalHandle} :
      disk.log.openWal config.wal now = .ok wal →
      OpenImage config disk ⟨wal.disk, disk.data⟩

/-! ## Runs -/

/-- What a caller knows: the writes of an operation that has returned `Ok`,
or of one that has failed or was cut off. -/
inductive EngineEvent where
  | acknowledged (writes : List (String × Value))
  | unacknowledged (writes : List (String × Value))

inductive EnginePhase where
  | down (disk : EngineDisk)
  | up (engine : OpenEngine)

/-- `clock` is the last reading of the clock that went into the log. -/
structure DurableState where
  phase : EnginePhase
  events : List EngineEvent
  clock : UInt64

inductive DurableAction where
  | reopen (now : UInt64)
  | crashReopening (disk : EngineDisk)
  | run (op : EngineOp) (now : UInt64) (run : FlushRun)
  | crash (op : EngineOp) (now : UInt64) (disk : EngineDisk)
  | crashTruncating (run : FlushRun) (disk : EngineDisk)
  | stop

def EngineEvent.ofRun (op : EngineOp) : Bool → EngineEvent
  | true => .acknowledged op.writes
  | false => .unacknowledged op.writes

inductive DurableStep (config : EngineConfig) :
    DurableState → DurableAction → DurableState → Prop
  | reopen {disk : EngineDisk} {events : List EngineEvent}
      {clock now : UInt64} {e : OpenEngine} :
      disk.openEngine config now = .ok e →
      DurableStep config ⟨.down disk, events, clock⟩ (.reopen now)
        ⟨.up e, events, clock⟩
  | crashReopening {disk disk' : EngineDisk} {events : List EngineEvent}
      {clock : UInt64} :
      OpenImage config disk disk' →
      DurableStep config ⟨.down disk, events, clock⟩ (.crashReopening disk')
        ⟨.down disk', events, clock⟩
  | run {e : OpenEngine} {events : List EngineEvent} {clock now : UInt64}
      {op : EngineOp} {run : FlushRun} :
      DurableStep config ⟨.up e, events, clock⟩ (.run op now run)
        ⟨.up (e.runOp config op now run).1,
          events ++ [.ofRun op (e.runOp config op now run).2], now⟩
  | crash {e : OpenEngine} {events : List EngineEvent} {clock now : UInt64}
      {op : EngineOp} {disk : EngineDisk} :
      CrashImage config now e op disk →
      DurableStep config ⟨.up e, events, clock⟩ (.crash op now disk)
        ⟨.down disk, events ++ [.unacknowledged op.writes], now⟩
  | crashTruncating {e flushed : OpenEngine} {events : List EngineEvent}
      {clock : UInt64} {wal : WalHandle} {run : FlushRun} {m : FileWal}
      {dir : List WalFile} :
      e.wal.flush config.wal = .ok wal →
      OpenEngine.flushMemtable ⟨wal, e.tree, e.data⟩ run = (flushed, true) →
      flushed.wal = .segment m → TruncationImage config.wal m dir →
      DurableStep config ⟨.up e, events, clock⟩
        (.crashTruncating run ⟨.segment dir, flushed.data⟩)
        ⟨.down ⟨.segment dir, flushed.data⟩,
          events ++ [.unacknowledged EngineOp.flush.writes], clock⟩
  | stop {e : OpenEngine} {events : List EngineEvent} {clock : UInt64} :
      DurableStep config ⟨.up e, events, clock⟩ .stop
        ⟨.down e.disk, events, clock⟩

/-- A disk with nothing on it. -/
def DurableState.created (engine : WalEngine) : DurableState :=
  ⟨.down ⟨.empty engine, ⟨[], [], 0⟩⟩, [], 0⟩

/-- What the process leaves behind when it stops here. -/
def DurableState.disk (state : DurableState) : EngineDisk :=
  match state.phase with
  | .down disk => disk
  | .up e => e.disk

/-! ## What is expected -/

/-- The effect of writes on what each key reads as. -/
def applyWrites (expected : String → Option Value)
    (writes : List (String × Value)) : String → Option Value :=
  writes.foldl
    (fun expected write => Function.update expected write.1 write.2.visible)
    expected

/-- Acknowledged writes have all been applied, and of those of another
operation the part that `applied` allows. -/
inductive Outcome
    (applied : List (String × Value) → List (String × Value) → Prop) :
    List EngineEvent → (String → Option Value) → Prop
  | start : Outcome applied [] fun _ => none
  | acknowledged {events : List EngineEvent}
      {expected : String → Option Value} {writes : List (String × Value)} :
      Outcome applied events expected →
      Outcome applied (events ++ [.acknowledged writes])
        (applyWrites expected writes)
  | unacknowledged {events : List EngineEvent}
      {expected : String → Option Value}
      {part writes : List (String × Value)} :
      Outcome applied events expected → applied part writes →
      Outcome applied (events ++ [.unacknowledged writes])
        (applyWrites expected part)

/-- An operation that was cut off is applied or not. -/
def AllOrNothing (part writes : List (String × Value)) : Prop :=
  part = [] ∨ part = writes

/-- The engine starts and reads what is expected. -/
def EngineDisk.Recovers (config : EngineConfig) (disk : EngineDisk)
    (expected : String → Option Value) : Prop :=
  ∀ now, ∃ e, disk.openEngine config now = .ok e ∧
    ∀ key, e.tree.get config.tree.levelCount key = expected key

/-! ## Conditions on a step -/

/-- The log can represent what the operation writes. -/
def EngineOp.Admissible (config : EngineConfig) (engine : WalEngine)
    (now : UInt64) (op : EngineOp) : Prop :=
  (∀ call, op.call config now = some call →
    WalHandle.Admissible config.wal engine call) ∧
  (op = .shutdown → WalHandle.AdmitsCheckpoint config.wal engine now)

/-- Admissible writes under a clock that does not go backwards. -/
def Admitted (config : EngineConfig) (state : DurableState) :
    DurableAction → Prop
  | .run op now _ => state.clock ≤ now ∧
      op.Admissible config state.disk.log.engine now
  | .crash op now _ => state.clock ≤ now ∧
      op.Admissible config state.disk.log.engine now
  | _ => True

end F4kvsLsm
