import F4kvsLsm.Core.Reloads
import F4kvsLsm.Engine.DurableSteps

/-!
# Tables that come back at a start

A start leaves out a file that does not open, and a lookup skips a record that
it cannot read.  Neither happens as long as every flush that writes a table
finds boundary keys that open, and values that can be read again.
-/

namespace F4kvsLsm

open Versions

def DataDir.Reloads (data : DataDir) : Prop :=
  ∀ table ∈ data.tables, table.Reloads

/-- Every table opens, and the engine starts and reads what is expected. -/
structure EngineDisk.Restores (config : EngineConfig) (disk : EngineDisk)
    (expected : String → Option Value) : Prop where
  tables : disk.data.Reloads
  reads : ∀ now, ∃ e, disk.openEngine config now = .ok e ∧
    ∀ key, e.tree.getChecked config.tree.levelCount key = expected key

/-- The memtable that an operation flushes. -/
def OpenEngine.flushed? (config : EngineConfig) (e : OpenEngine)
    (op : EngineOp) (now : UInt64) : Option Memtable :=
  match op with
  | .forceFlush | .flush | .shutdown => some e.tree.active
  | write =>
      match write.call config now with
      | none => none
      | some call =>
          let filled := (applyCall config e.tree call).active
          if filled.size ≥ config.maxSize then some filled else none

/-- A table that a step adds comes back. -/
def FlushesReload (config : EngineConfig) (state : DurableState)
    (action : DurableAction) : Prop :=
  ∀ e, state.phase = .up e →
    match action with
    | .run op now run => run.outcome ≠ .failedWriting →
        ∀ m ∈ e.flushed? config op now, m.Reloads
    | .crash op now disk => disk.data.tables ≠ e.data.tables →
        ∀ m ∈ e.flushed? config op now, m.Reloads
    | .crashTruncating run _ => run.outcome ≠ .failedWriting →
        e.tree.active.Reloads
    | _ => True

section

variable {config : EngineConfig} {disk disk' : EngineDisk} {e : OpenEngine}
variable {expected : String → Option Value} {now : UInt64}

/-! ## Starts -/

theorem EngineDisk.openEngine_tables
    (opened : disk.openEngine config now = .ok e) :
    e.tree.levels = loadLevel disk.data.tables ∧
      e.data.tables = disk.data.tables := by
  rw [openEngine] at opened
  split at opened
  · cases opened
  · cases opened
    exact ⟨rfl, rfl⟩

theorem DataDir.Reloads.loadLevel {data : DataDir} (reloads : data.Reloads)
    (level : Nat) : ∀ table ∈ loadLevel data.tables level, table.Reloads :=
  fun table member => reloads table (mem_loadLevel.mp member).1

theorem EngineDisk.Recovers.restores
    (recovers : disk.Recovers config expected)
    (reloads : disk.data.Reloads) : disk.Restores config expected where
  tables := reloads
  reads := by
    intro now
    obtain ⟨e, opened, reads⟩ := recovers now
    refine ⟨e, opened, fun key => ?_⟩
    rw [LsmTree.getChecked_eq, reads key]
    intro level table member
    rw [(openEngine_tables opened).1] at member
    exact (reloads.loadLevel level table member).readsBack

theorem EngineDisk.Restores.recovers
    (restores : disk.Restores config expected) :
    disk.Recovers config expected := by
  intro now
  obtain ⟨e, opened, reads⟩ := restores.reads now
  refine ⟨e, opened, fun key => ?_⟩
  rw [← reads key, LsmTree.getChecked_eq]
  intro level table member
  rw [(openEngine_tables opened).1] at member
  exact (restores.tables.loadLevel level table member).readsBack

/-! ## Operations -/

namespace OpenEngine

/-- The tables of the directory and those in memory come back. -/
structure Reloads (e : OpenEngine) : Prop where
  data : e.data.Reloads
  levels : ∀ level, ∀ table ∈ e.tree.levels level, table.Reloads

theorem Reloads.getChecked_eq (reloads : e.Reloads) (levelCount : Nat)
    (key : String) :
    e.tree.getChecked levelCount key = e.tree.get levelCount key :=
  LsmTree.getChecked_eq (fun level table member =>
    (reloads.levels level table member).readsBack) levelCount key

theorem Reloads.opened (reloads : disk.data.Reloads)
    (opened : disk.openEngine config now = .ok e) : e.Reloads := by
  obtain ⟨levels, tables⟩ := EngineDisk.openEngine_tables opened
  constructor
  case data =>
    rw [DataDir.Reloads, tables]
    exact reloads
  case levels =>
    rw [levels]
    exact reloads.loadLevel

theorem Reloads.of_tables (reloads : e.Reloads) {other : OpenEngine}
    (tables : other.data.tables = e.data.tables)
    (levels : other.tree.levels = e.tree.levels) : other.Reloads where
  data := by
    rw [DataDir.Reloads, tables]
    exact reloads.data
  levels := by
    rw [levels]
    exact reloads.levels

theorem applyCall_levels (tree : LsmTree) (call : WalCall) :
    (applyCall config tree call).levels = tree.levels := by
  rw [applyCall_eq]

/-- The directory with one more table. -/
theorem Reloads.written (reloads : e.Reloads)
    (active : e.tree.active.Reloads)
    (nonempty : e.tree.active.entryCount > 0) (info : TableInfo)
    (next : Nat) : (e.data.written (e.newTable info) next).Reloads := by
  intro table member
  rcases List.mem_append.mp member with old | new
  · exact reloads.data table old
  · rw [List.mem_singleton.mp new]
    exact active.flushedTable nonempty e.data.names info

theorem Reloads.flushMemtable (reloads : e.Reloads) {run : FlushRun}
    (active : run.outcome ≠ .failedWriting → e.tree.active.Reloads) :
    (e.flushMemtable run).1.Reloads := by
  by_cases nonempty : e.tree.active.entryCount > 0
  · cases outcome : run.outcome with
    | done =>
        have active := active (by rw [outcome]; decide)
        constructor
        case data =>
          simp only [OpenEngine.flushMemtable, dataAfterFlush,
            if_pos nonempty, outcome]
          exact reloads.written active nonempty run.info _
        case levels =>
          simp only [OpenEngine.flushMemtable,
            LsmTree.flushMemtableInternal, if_pos nonempty, outcome]
          intro level table member
          by_cases top : level = 0
          · subst top
            rw [LsmTree.publish, Function.update_self] at member
            rcases List.mem_append.mp member with old | new
            · exact reloads.levels 0 table old
            · rw [List.mem_singleton.mp new]
              exact active.flushedTable nonempty e.data.names run.info
          · rw [LsmTree.publish, Function.update_of_ne top] at member
            exact reloads.levels level table member
    | failedOpening =>
        have active := active (by rw [outcome]; decide)
        constructor
        case data =>
          simp only [OpenEngine.flushMemtable, dataAfterFlush,
            if_pos nonempty, outcome]
          exact reloads.written active nonempty run.info _
        case levels =>
          simp only [OpenEngine.flushMemtable,
            LsmTree.flushMemtableInternal, if_pos nonempty, outcome]
          exact reloads.levels
    | failedWriting =>
        refine reloads.of_tables ?_ ?_
        · simp only [OpenEngine.flushMemtable, dataAfterFlush,
            if_pos nonempty, outcome]
          split <;> rfl
        · simp only [OpenEngine.flushMemtable,
            LsmTree.flushMemtableInternal, if_pos nonempty, outcome]
  · rw [flushMemtable_of_empty nonempty]
    exact reloads.of_tables rfl rfl

theorem Reloads.checkMemtableFlush (reloads : e.Reloads) {run : FlushRun}
    (active : run.outcome ≠ .failedWriting →
      e.tree.active.size ≥ config.maxSize → e.tree.active.Reloads) :
    (e.checkMemtableFlush config run).1.Reloads := by
  rw [OpenEngine.checkMemtableFlush]
  split
  · case isTrue full =>
      exact reloads.flushMemtable fun written => active written full
  · exact reloads

theorem Reloads.runCall (reloads : e.Reloads) {op : EngineOp}
    {run : FlushRun}
    (flushed : run.outcome ≠ .failedWriting →
      ∀ call, op.call config now = some call →
        (applyCall config e.tree call).active.size ≥ config.maxSize →
          (applyCall config e.tree call).active.Reloads) :
    (e.runCall config op now run).1.Reloads := by
  rw [OpenEngine.runCall]
  cases made : op.call config now with
  | none => exact reloads
  | some call =>
      simp only [runWrite, OpenEngine.write]
      cases e.wal.call config.wal call with
      | error error => exact reloads
      | ok wal =>
          have written : Reloads
              ⟨wal, applyCall config e.tree call, e.data⟩ :=
            reloads.of_tables rfl (applyCall_levels e.tree call)
          exact written.checkMemtableFlush
            fun outcome full => flushed outcome call made full

/-- The condition on a put, a deletion or a batch. -/
theorem reloads_of_flushed {op : EngineOp}
    (flushes : ∀ m ∈ e.flushed? config op now, m.Reloads) {call : WalCall}
    (made : op.call config now = some call)
    (full : (applyCall config e.tree call).active.size ≥ config.maxSize) :
    (applyCall config e.tree call).active.Reloads := by
  apply flushes
  cases op with
  | put key value | delete key | batchPut items =>
      simp only [flushed?, made, if_pos full, Option.mem_def]
  | forceFlush | flush | shutdown => cases made

theorem Reloads.runOp (reloads : e.Reloads) {op : EngineOp}
    {run : FlushRun}
    (flushes : run.outcome ≠ .failedWriting →
      ∀ m ∈ e.flushed? config op now, m.Reloads) :
    (e.runOp config op now run).1.Reloads := by
  have called : (e.runCall config op now run).1.Reloads :=
    reloads.runCall fun outcome call made full =>
      reloads_of_flushed (flushes outcome) made full
  cases op with
  | put key value => exact called
  | delete key => exact called
  | batchPut items => exact called
  | forceFlush =>
      exact reloads.flushMemtable fun outcome => flushes outcome _ rfl
  | flush =>
      have active := fun outcome => flushes outcome e.tree.active rfl
      simp only [OpenEngine.runOp, OpenEngine.flush]
      cases e.wal.flush config.wal with
      | error error => exact reloads
      | ok wal =>
          have linked : Reloads ⟨wal, e.tree, e.data⟩ :=
            reloads.of_tables rfl rfl
          have kept := linked.flushMemtable active
          simp only
          revert kept
          generalize OpenEngine.flushMemtable ⟨wal, e.tree, e.data⟩ run =
            result
          intro kept
          obtain ⟨after, success⟩ := result
          cases success with
          | false => exact kept
          | true => exact kept.of_tables rfl rfl
  | shutdown =>
      have active := fun outcome => flushes outcome e.tree.active rfl
      have linked : Reloads
          ⟨e.shutdownBackgroundTasks config, e.tree, e.data⟩ :=
        reloads.of_tables rfl rfl
      have kept := linked.flushMemtable active
      simp only [OpenEngine.runOp, OpenEngine.shutdown]
      revert kept
      generalize OpenEngine.flushMemtable
        ⟨e.shutdownBackgroundTasks config, e.tree, e.data⟩ run = result
      intro kept
      obtain ⟨after, success⟩ := result
      cases success with
      | false => exact kept
      | true =>
          simp only
          cases after.wal.markCleanShutdown config.wal now with
          | error error => exact kept
          | ok wal => exact kept.of_tables rfl rfl

end OpenEngine

/-! ## Crashes -/

theorem FlushImage.reloads {info : TableInfo} {data : DataDir}
    (image : FlushImage e info data) (reloads : e.Reloads)
    (active : data.tables ≠ e.data.tables → e.tree.active.Reloads) :
    data.Reloads := by
  have longer : e.data.tables ++ [e.newTable info] ≠ e.data.tables := by
    intro same
    have lengths := congrArg List.length same
    rw [List.length_append, List.length_singleton] at lengths
    omega
  cases image with
  | before => exact reloads.data
  | writing => exact reloads.data
  | complete nonempty =>
      exact reloads.written (active longer) nonempty info _
  | persisted nonempty =>
      exact reloads.written (active longer) nonempty info _

theorem CrashImage.reloads {op : EngineOp}
    (image : CrashImage config now e op disk) (reloads : e.Reloads)
    (flushes : disk.data.tables ≠ e.data.tables →
      ∀ m ∈ e.flushed? config op now, m.Reloads) :
    disk.data.Reloads := by
  have unwritten : ∀ {call written}, e.write config call = .ok written →
      written.tree.active = (OpenEngine.applyCall config e.tree call).active ∧
      written.tree.levels = e.tree.levels ∧ written.data = e.data := by
    intro call written done
    rw [OpenEngine.write] at done
    split at done
    · cases done
      exact ⟨rfl, OpenEngine.applyCall_levels e.tree call, rfl⟩
    · cases done
  cases image with
  | before => exact reloads.data
  | logging => exact reloads.data
  | logged _ done =>
      obtain ⟨-, -, same⟩ := unwritten done
      rw [OpenEngine.disk, same]
      exact reloads.data
  | filled made done full flushImage =>
      obtain ⟨active, levels, same⟩ := unwritten done
      refine flushImage.reloads
        (reloads.of_tables (congrArg DataDir.tables same) levels) ?_
      intro more
      rw [same] at more
      rw [active] at full ⊢
      exact OpenEngine.reloads_of_flushed (flushes more) made full
  | forced flushImage =>
      exact flushImage.reloads reloads fun more => flushes more _ rfl
  | flushing _ flushImage =>
      exact flushImage.reloads (reloads.of_tables rfl rfl)
        fun more => flushes more _ rfl

/-! ## Runs -/

/-- The tables on the disk and in memory come back. -/
def EnginePhase.Reloads : EnginePhase → Prop
  | .down disk => disk.data.Reloads
  | .up e => e.Reloads

theorem DurableState.disk_reloads {state : DurableState}
    (reloads : state.phase.Reloads) : state.disk.data.Reloads := by
  rw [DurableState.disk]
  cases at' : state.phase with
  | down disk =>
      rw [at'] at reloads
      exact reloads
  | up e =>
      rw [at'] at reloads
      exact OpenEngine.Reloads.data reloads

theorem DurableStep.reloads {state state' : DurableState}
    {action : DurableAction} (reloads : state.phase.Reloads)
    (flushes : FlushesReload config state action)
    (taken : DurableStep config state action state') :
    state'.phase.Reloads := by
  cases taken with
  | reopen opened => exact OpenEngine.Reloads.opened reloads opened
  | crashReopening image => cases image <;> exact reloads
  | run =>
      exact OpenEngine.Reloads.runOp reloads fun outcome =>
        flushes _ rfl outcome
  | crash image =>
      exact image.reloads reloads fun more => flushes _ rfl more
  | @crashTruncating e flushed events clock wal run m dir _ done =>
      have linked : OpenEngine.Reloads ⟨wal, e.tree, e.data⟩ :=
        OpenEngine.Reloads.of_tables reloads rfl rfl
      have kept := linked.flushMemtable (flushes e rfl)
      rw [done] at kept
      exact kept.data
  | stop => exact OpenEngine.Reloads.data reloads

end

end F4kvsLsm
