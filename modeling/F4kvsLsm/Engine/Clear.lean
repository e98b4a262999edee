import F4kvsLsm.Engine.DurableRuns
import F4kvsLsm.Wal.UnlinkedWrites

/-!
# Clearing an engine that is running

`clear` empties the memtables and the map of tables and removes the log
directory; `recover_from_corruption` removes the log directory and flushes the
active memtable.  Neither touches the files of the tables, and neither tells
the log manager.  The engine goes on with a log that is not in the directory
until the manager starts a new file or segment there.

The removal of the log directory is one step here.  A process that stops
inside `clear` has therefore stopped before or after it.
-/

namespace F4kvsLsm

/-- `unlinked` is an engine whose log directory holds nothing. -/
inductive ServicePhase where
  | linked (phase : EnginePhase)
  | unlinked (engine : OpenEngine)

namespace ServicePhase

def engine? : ServicePhase → Option OpenEngine
  | .linked (.up e) => some e
  | .linked (.down _) => none
  | .unlinked e => some e

def serving (log : LogState WalHandle) (e : OpenEngine) : ServicePhase :=
  match log with
  | .linked _ => .linked (.up e)
  | .unlinked _ => .unlinked e

end ServicePhase

namespace OpenEngine

variable (config : EngineConfig)

def clear (e : OpenEngine) : OpenEngine :=
  ⟨e.wal.unlink, ⟨.new, [], fun _ => [], e.tree.sequenceNumber⟩, e.data⟩

/-- `recover_from_corruption`; a flush that fails is only logged. -/
def recoverFromCorruption (e : OpenEngine) (run : FlushRun) : OpenEngine :=
  (flushMemtable ⟨e.wal.unlink, { e.tree with immutables := [] }, e.data⟩
    run).1

/-! ## Operations without a log directory -/

def runCallUnlinked (e : OpenEngine) (op : EngineOp) (now : UInt64)
    (run : FlushRun) : ServicePhase × Bool :=
  match op.call config now with
  | none => (.unlinked e, false)
  | some call =>
      match e.wal.callUnlinked config.wal call with
      | (log, .error _) => (.serving log ⟨log.wal, e.tree, e.data⟩, false)
      | (log, .ok ()) =>
          let checked := checkMemtableFlush config
            ⟨log.wal, applyCall config e.tree call, e.data⟩ run
          (.serving log checked.1, checked.2)

/-- The truncation behind a flush starts a new log. -/
def flushUnlinked (e : OpenEngine) (now : UInt64) (run : FlushRun) :
    ServicePhase × Bool :=
  match e.wal.flushUnlinked config.wal with
  | (wal, .error _) => (.unlinked ⟨wal, e.tree, e.data⟩, false)
  | (wal, .ok ()) =>
      match flushMemtable ⟨wal, e.tree, e.data⟩ run with
      | (flushed, false) => (.unlinked flushed, false)
      | (flushed, true) =>
          (.linked (.up ⟨flushed.wal.truncateAfterFlush config.wal now,
            flushed.tree, flushed.data⟩), true)

def shutdownUnlinked (e : OpenEngine) (now : UInt64) (run : FlushRun) :
    ServicePhase × Bool :=
  let wal := (e.wal.flushUnlinked config.wal).1
  match flushMemtable ⟨wal, e.tree, e.data⟩ run with
  | (flushed, false) => (.unlinked flushed, false)
  | (flushed, true) =>
      match flushed.wal.markCleanShutdownUnlinked config.wal now with
      | (log, .ok ()) =>
          (.serving log ⟨log.wal, flushed.tree, flushed.data⟩, true)
      | (log, .error _) =>
          (.serving log ⟨log.wal, flushed.tree, flushed.data⟩, false)

def runOpUnlinked (e : OpenEngine) (op : EngineOp) (now : UInt64)
    (run : FlushRun) : ServicePhase × Bool :=
  match op with
  | .forceFlush =>
      (.unlinked (e.flushMemtable run).1, (e.flushMemtable run).2)
  | .flush => e.flushUnlinked config now run
  | .shutdown => e.shutdownUnlinked config now run
  | write => e.runCallUnlinked config write now run

end OpenEngine

/-- The disk at some point of an operation without a log directory. -/
inductive UnlinkedImage (config : EngineConfig) (now : UInt64)
    (e : OpenEngine) : EngineOp → EngineDisk → Prop
  | unlogged {op : EngineOp} :
      UnlinkedImage config now e op ⟨.empty e.wal.disk.engine, e.data⟩
  | starting {op : EngineOp} {call : WalCall} {m : FileWal} {cut : Nat} :
      op.call config now = some call → e.wal = .segment m →
      UnlinkedImage config now e op
        ⟨.segment [⟨m.counter, now, (FileEngine.segment.encodeHeader
          (FileWal.newHeader config.wal now)).take cut⟩], e.data⟩
  | logging {op : EngineOp} {call : WalCall} {m : FileWal}
      {dir : List WalFile} :
      op.call config now = some call → e.wal = .segment m →
      LogImage config.wal call.entries
        (FileWal.restart .segment config.wal m now) dir →
      UnlinkedImage config now e op ⟨.segment dir, e.data⟩
  | logged {op : EngineOp} {call : WalCall} {log : LogState WalHandle} :
      op.call config now = some call →
      e.wal.callUnlinked config.wal call = (log, .ok ()) →
      UnlinkedImage config now e op ⟨log.disk, e.data⟩
  | filled {op : EngineOp} {call : WalCall} {log : LogState WalHandle}
      {written : OpenEngine} {info : TableInfo} {data : DataDir} :
      op.call config now = some call →
      e.wal.callUnlinked config.wal call = (log, .ok ()) →
      written = ⟨log.wal, OpenEngine.applyCall config e.tree call, e.data⟩ →
      written.tree.active.size ≥ config.maxSize →
      FlushImage written info data →
      UnlinkedImage config now e op ⟨log.disk, data⟩
  | flushing {op : EngineOp} {info : TableInfo} {data : DataDir} :
      op = .forceFlush ∨ op = .flush → FlushImage e info data →
      UnlinkedImage config now e op ⟨.empty e.wal.disk.engine, data⟩

/-! ## Runs -/

/-- `events` are those since the last `clear`. -/
structure ServiceState where
  phase : ServicePhase
  events : List EngineEvent
  clock : UInt64

inductive ServiceAction where
  | durable (action : DurableAction)
  | run (op : EngineOp) (now : UInt64) (run : FlushRun)
  | crash (op : EngineOp) (now : UInt64) (disk : EngineDisk)
  | stop
  | clear
  | recoverFromCorruption (run : FlushRun)
  | crashRecovering (data : DataDir)

inductive ServiceStep (config : EngineConfig) :
    ServiceState → ServiceAction → ServiceState → Prop
  | durable {phase phase' : EnginePhase} {events added : List EngineEvent}
      {clock clock' : UInt64} {action : DurableAction} :
      DurableStep config ⟨phase, [], clock⟩ action
        ⟨phase', added, clock'⟩ →
      ServiceStep config ⟨.linked phase, events, clock⟩ (.durable action)
        ⟨.linked phase', events ++ added, clock'⟩
  | run {e : OpenEngine} {events : List EngineEvent} {clock now : UInt64}
      {op : EngineOp} {run : FlushRun} :
      ServiceStep config ⟨.unlinked e, events, clock⟩ (.run op now run)
        ⟨(e.runOpUnlinked config op now run).1,
          events ++ [.ofRun op (e.runOpUnlinked config op now run).2], now⟩
  | crash {e : OpenEngine} {events : List EngineEvent} {clock now : UInt64}
      {op : EngineOp} {disk : EngineDisk} :
      UnlinkedImage config now e op disk →
      ServiceStep config ⟨.unlinked e, events, clock⟩ (.crash op now disk)
        ⟨.linked (.down disk), events ++ [.unacknowledged op.writes], now⟩
  | stop {e : OpenEngine} {events : List EngineEvent} {clock : UInt64} :
      ServiceStep config ⟨.unlinked e, events, clock⟩ .stop
        ⟨.linked (.down ⟨.empty e.wal.disk.engine, e.data⟩), events, clock⟩
  | clear {phase : ServicePhase} {e : OpenEngine}
      {events : List EngineEvent} {clock : UInt64} :
      phase.engine? = some e →
      ServiceStep config ⟨phase, events, clock⟩ .clear
        ⟨.unlinked e.clear, [], clock⟩
  | recoverFromCorruption {phase : ServicePhase} {e : OpenEngine}
      {events : List EngineEvent} {clock : UInt64} {run : FlushRun} :
      phase.engine? = some e →
      ServiceStep config ⟨phase, events, clock⟩ (.recoverFromCorruption run)
        ⟨.unlinked (e.recoverFromCorruption run), events, clock⟩
  | crashRecovering {phase : ServicePhase} {e : OpenEngine}
      {events : List EngineEvent} {clock : UInt64} {info : TableInfo}
      {data : DataDir} :
      phase.engine? = some e → FlushImage e info data →
      ServiceStep config ⟨phase, events, clock⟩ (.crashRecovering data)
        ⟨.linked (.down ⟨.empty e.wal.disk.engine, data⟩), events, clock⟩

namespace ServiceState

/-- A disk with nothing on it. -/
def created (engine : WalEngine) : ServiceState :=
  ⟨.linked (.down ⟨.empty engine, ⟨[], [], 0⟩⟩), [], 0⟩

/-- What the process leaves behind when it stops here. -/
def disk (state : ServiceState) : EngineDisk :=
  match state.phase with
  | .linked phase => DurableState.disk ⟨phase, [], state.clock⟩
  | .unlinked e => ⟨.empty e.wal.disk.engine, e.data⟩

end ServiceState

/-- What an operation has written, or may have. -/
def EngineEvent.writes : EngineEvent → List (String × Value)
  | .acknowledged writes => writes
  | .unacknowledged writes => writes

/-- The keys that may have been written since the last `clear`. -/
def writtenKeys (events : List EngineEvent) : List String :=
  events.flatMap fun event => event.writes.map (·.1)

/-! ## Conditions on a step -/

namespace OpenEngine

/-- No table in the data directory shows a key. -/
def TablesBlank (config : EngineConfig) (e : OpenEngine) : Prop :=
  ∀ key, getFromSstables config.tree.levelCount (loadLevel e.data.tables)
    key = none

/-- Without the log nothing is missing: the flush writes its table, and the
parked memtables have nothing to add. -/
def SafeToRecover (config : EngineConfig) (e : OpenEngine)
    (run : FlushRun) : Prop :=
  (e.tree.active.entryCount > 0 → run.outcome ≠ .failedWriting) ∧
    e.ParkedRedundant config

/-- No parked deletion is all that hides a key of the tables in memory. -/
def HidesNothing (config : EngineConfig) (e : OpenEngine) : Prop :=
  ∀ memtable ∈ e.tree.immutables, ∀ key value,
    memtable.data[key]? = some value → value.visible = none →
      e.tree.active.data[key]? = none →
        getFromSstables config.tree.levelCount e.tree.levels key = none

/-- The tables of `data` read alone as the tables and the log read so far. -/
def LogCovered (config : EngineConfig) (e : OpenEngine) (data : DataDir) :
    Prop :=
  ∀ key, getFromSstables config.tree.levelCount (loadLevel data.tables) key =
    acknowledged config.tree.levelCount (loadLevel e.data.tables)
      (e.wal.disk.recovered config.wal) key

end OpenEngine

/-- Careful steps; `clear` finds no table that shows a key, nothing is
written into a file that has been removed, and neither the log nor the parked
memtables are dropped while they are needed. -/
def Unharmed (config : EngineConfig) (state : ServiceState) :
    ServiceAction → Prop
  | .durable action => ∀ phase, state.phase = .linked phase →
      Careful config ⟨phase, [], state.clock⟩ action
  | .run op now _ => state.clock ≤ now ∧
      ∀ e, state.phase = .unlinked e →
        op.Admissible config e.wal.disk.engine now ∧
          ∀ call, op.call config now = some call →
            ¬ e.wal.Takes config.wal call
  | .crash op now _ => state.clock ≤ now ∧
      ∀ e, state.phase = .unlinked e →
        op.Admissible config e.wal.disk.engine now
  | .stop => True
  | .clear => ∀ e, state.phase.engine? = some e → e.TablesBlank config
  | .recoverFromCorruption run => ∀ e, state.phase.engine? = some e →
      e.HidesNothing config ∧
        (state.phase = .linked (.up e) → e.SafeToRecover config run)
  | .crashRecovering data =>
      ∀ e, state.phase = .linked (.up e) → e.LogCovered config data

/-- A table that a step adds comes back. -/
def ServiceFlushesReload (config : EngineConfig) (state : ServiceState) :
    ServiceAction → Prop
  | .durable action => ∀ phase, state.phase = .linked phase →
      FlushesReload config ⟨phase, [], state.clock⟩ action
  | .run op now run => ∀ e, state.phase = .unlinked e →
      run.outcome ≠ .failedWriting →
        ∀ m ∈ e.flushed? config op now, m.Reloads
  | .crash op now disk => ∀ e, state.phase = .unlinked e →
      disk.data.tables ≠ e.data.tables →
        ∀ m ∈ e.flushed? config op now, m.Reloads
  | .stop => True
  | .clear => True
  | .recoverFromCorruption run => ∀ e, state.phase.engine? = some e →
      run.outcome ≠ .failedWriting → e.tree.active.Reloads
  | .crashRecovering data => ∀ e, state.phase.engine? = some e →
      data.tables ≠ e.data.tables → e.tree.active.Reloads

end F4kvsLsm
