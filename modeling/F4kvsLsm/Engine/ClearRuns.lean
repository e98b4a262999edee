import F4kvsLsm.Engine.Clear
import F4kvsLsm.Engine.CrashDurable

/-!
# What stays cleared and what stays durable

Behind `clear` and `recover_from_corruption` the tables hold all that is
expected, and the memtable is empty as long as no operation has begun a new
log.  From then on the engine is one that the runs without `clear` have.
-/

namespace F4kvsLsm

open KeyedLog Transitions Versions

section

variable {config : EngineConfig} {e : OpenEngine}
variable {expected : String → Option Value} {clock now : UInt64}

namespace OpenEngine

/-- An engine without a log directory whose tables hold everything. -/
structure UnlinkedSound (config : EngineConfig) (e : OpenEngine)
    (expected : String → Option Value) : Prop where
  unlinked : e.wal.Unlinked config.wal
  data : e.data.Sound
  upToDate : UpToDate config.tree e.diskTree expected
  active : e.tree.active = .new
  held : ∀ key, getFromSstables config.tree.levelCount
    (loadLevel e.data.tables) key = expected key

theorem UnlinkedSound.empty
    (sound : e.UnlinkedSound config expected) :
    ¬ e.tree.active.entryCount > 0 := by
  rw [sound.active]
  decide

theorem UnlinkedSound.get_active
    (sound : e.UnlinkedSound config expected) (key : String) :
    e.tree.active.data[key]? = none :=
  Memtable.get_of_entryCount sound.empty key

/-- Whatever empty log the engine had, it would be sound. -/
theorem UnlinkedSound.relinked
    (sound : e.UnlinkedSound config expected) {wal : WalHandle}
    (ready : wal.Ready config.wal)
    (empty : wal.disk.recovered config.wal = []) (clock : UInt64) :
    Sound config ⟨wal, e.tree, e.data⟩ expected clock := by
  constructor
  case ready => exact ready
  case disk => exact .of_tables ready.onDisk empty sound.data sound.held
  case upToDate => exact sound.upToDate
  case logged => exact fun key _ => sound.get_active key

/-- A start finds an empty log directory. -/
theorem UnlinkedSound.disk
    (sound : e.UnlinkedSound config expected) (clock : UInt64)
    (engine : WalEngine) :
    EngineDisk.Sound config ⟨.empty engine, e.data⟩ expected clock :=
  .of_tables (WalDisk.empty_onDisk _ engine)
    (WalDisk.empty_recovered _ engine) sound.data sound.held

theorem UnlinkedSound.withWal
    (sound : e.UnlinkedSound config expected) {wal : WalHandle}
    (unlinked : wal.Unlinked config.wal) :
    UnlinkedSound config ⟨wal, e.tree, e.data⟩ expected :=
  ⟨unlinked, sound.data, sound.upToDate, sound.active, sound.held⟩

theorem UnlinkedSound.flushMemtable_eq
    (sound : e.UnlinkedSound config expected) (run : FlushRun) :
    e.flushMemtable run = (e, true) := by
  have same : { e.tree with active := Memtable.new } = e.tree := by
    rw [← sound.active]
  rw [flushMemtable_of_empty sound.empty, same]

theorem UnlinkedSound.checkMemtableFlush_eq
    (sound : e.UnlinkedSound config expected) (run : FlushRun) :
    e.checkMemtableFlush config run = (e, true) := by
  rw [OpenEngine.checkMemtableFlush]
  split
  · exact sound.flushMemtable_eq run
  · rfl

/-! ## Removing the log directory -/

/-- `clear` when no table shows a key. -/
theorem clear_sound
    (unlinked : e.wal.unlink.Unlinked config.wal) (data : e.data.Sound)
    (invariant : e.diskTree.Invariant config.tree)
    (blank : e.TablesBlank config) :
    e.clear.UnlinkedSound config fun _ => none := by
  constructor
  case unlinked => exact unlinked
  case data => exact data
  case upToDate =>
    constructor
    case invariant => exact invariant.advance _ _ le_rfl
    case active =>
      intro key value found
      exact absurd found (by simp [diskTree, clear])
    case tables => exact fun _ key _ => blank key
  case active => rfl
  case held => exact blank

theorem Sound.recoverFromCorruption
    (sound : e.Sound config expected clock)
    (levels : 0 < config.tree.levelCount) {run : FlushRun}
    (safe : e.SafeToRecover config run) :
    (e.recoverFromCorruption run).UnlinkedSound config expected := by
  have hold := sound.tables_hold_of_written levels safe.1 safe.2
  have flushed := sound.flushMemtable run
  have active : (e.recoverFromCorruption run).tree.active = .new :=
    flushMemtable_active run
  have sameLevels : (e.recoverFromCorruption run).diskTree.levels =
      (e.flushMemtable run).1.diskTree.levels := rfl
  have sameSequence : (e.recoverFromCorruption run).diskTree.sequenceNumber =
      (e.flushMemtable run).1.diskTree.sequenceNumber := by
    simp only [diskTree, OpenEngine.recoverFromCorruption,
      OpenEngine.flushMemtable, LsmTree.flushMemtableInternal]
    split
    · cases run.outcome <;> rfl
    · rfl
  constructor
  case unlinked => exact WalHandle.Ready.unlink sound.ready
  case data => exact flushed.disk.data
  case upToDate =>
    constructor
    case invariant =>
      have invariant := flushed.upToDate.invariant.advance
        (e.recoverFromCorruption run).tree.active
        (e.recoverFromCorruption run).tree.immutables le_rfl
      rw [← sameSequence, ← sameLevels] at invariant
      exact invariant
    case active =>
      intro key value found
      have missing : (e.recoverFromCorruption run).tree.active.data[key]? =
          none := by
        rw [active]
        exact Memtable.new_get key
      exact absurd (found.symm.trans missing) (by simp)
    case tables => exact fun _ key _ => hold key
  case active => exact active
  case held => exact hold

theorem UnlinkedSound.recoverFromCorruption
    (sound : e.UnlinkedSound config expected) (run : FlushRun) :
    (e.recoverFromCorruption run).UnlinkedSound config expected := by
  have before : UnlinkedSound config
      ⟨e.wal.unlink, { e.tree with immutables := [] }, e.data⟩ expected := by
    refine ⟨WalHandle.Unlinked.unlink sound.unlinked, sound.data, ?_,
      sound.active, sound.held⟩
    constructor
    case invariant => exact sound.upToDate.invariant.advance _ _ le_rfl
    case active => exact sound.upToDate.active
    case tables => exact fun _ key _ => sound.held key
  rw [OpenEngine.recoverFromCorruption, before.flushMemtable_eq run]
  exact before

end OpenEngine

/-! ## Operations without a log directory -/

def ServicePhase.Sound (config : EngineConfig) (phase : ServicePhase)
    (expected : String → Option Value) (clock : UInt64) : Prop :=
  match phase with
  | .linked phase => phase.Sound config expected clock
  | .unlinked e => e.UnlinkedSound config expected

namespace OpenEngine

/-- Some log that holds the entries of a call and nothing else. -/
theorem UnlinkedSound.exists_written
    (sound : e.UnlinkedSound config expected) {op : EngineOp}
    {call : WalCall} (made : op.call config now = some call)
    (admissible :
      WalHandle.Admissible config.wal e.wal.disk.engine call) :
    ∃ wal, wal.disk.recovered config.wal = call.entries ∧
      Sound config ⟨wal, applyCall config e.tree call, e.data⟩
        (applyWrites expected op.writes) now := by
  have emptied : WalHandle.Emptied config.wal e.wal _ :=
    WalHandle.truncateAfterFlush_emptied e.wal now
  have restarted := sound.relinked emptied.ready emptied.recovered now
  rw [← emptied.engine] at admissible
  obtain ⟨wal, called, grows⟩ :=
    WalHandle.call_grows restarted.ready admissible
  obtain ⟨written, result, writtenSound⟩ :=
    restarted.write made (UInt64.le_refl now) admissible
  rw [OpenEngine.write, called, Except.ok.injEq] at result
  subst result
  refine ⟨wal, ?_, writtenSound⟩
  rw [grows.recovered, emptied.recovered, List.nil_append]

/-- What a call that has begun a new log leaves. -/
theorem UnlinkedSound.written
    (sound : e.UnlinkedSound config expected) {op : EngineOp}
    {call : WalCall} (made : op.call config now = some call)
    (admissible : WalHandle.Admissible config.wal e.wal.disk.engine call)
    {wal : WalHandle}
    (relinked : WalHandle.Relinked config.wal e.wal wal call.entries) :
    Sound config ⟨wal, applyCall config e.tree call, e.data⟩
      (applyWrites expected op.writes) now := by
  obtain ⟨other, holds, writtenSound⟩ :=
    sound.exists_written made admissible
  refine writtenSound.rewired relinked.ready ?_
  rw [relinked.recovered, holds]

theorem UnlinkedSound.runCallUnlinked
    (sound : e.UnlinkedSound config expected) {op : EngineOp}
    (admissible : op.Admissible config e.wal.disk.engine now)
    (untaken : ∀ call, op.call config now = some call →
      ¬ e.wal.Takes config.wal call) (run : FlushRun) :
    ∃ front, front <+: op.writes ∧
      ((e.runCallUnlinked config op now run).2 = true → front = op.writes) ∧
      (e.runCallUnlinked config op now run).1.Sound config
        (applyWrites expected front) now := by
  rw [OpenEngine.runCallUnlinked]
  cases made : op.call config now with
  | none =>
      exact ⟨[], List.nil_prefix, fun done => absurd done (by simp), sound⟩
  | some call =>
      have ended := WalHandle.Unlinked.callUnlinked_end sound.unlinked
        (admissible.1 call made)
      obtain ⟨writes, -⟩ := EngineOp.call_entries made
      simp only
      revert ended
      generalize e.wal.callUnlinked config.wal call = result
      intro ended
      obtain ⟨log, result⟩ := result
      cases log with
      | unlinked wal =>
          have kept := (ended.unlinked wal rfl).resolve_left
            (untaken call made)
          have stays := sound.withWal kept.1
          cases result with
          | error error =>
              exact ⟨[], List.nil_prefix, fun done => absurd done (by simp),
                stays⟩
          | ok =>
              have nothing : op.writes = [] := by
                rw [← writes, kept.2 rfl]
                rfl
              have sameTree : applyCall config e.tree call = e.tree := by
                rw [applyCall_eq, kept.2 rfl]
                rfl
              refine ⟨[], List.nil_prefix, fun _ => nothing.symm, ?_⟩
              simp only [sameTree, LogState.wal,
                stays.checkMemtableFlush_eq run]
              exact stays
      | linked wal =>
          obtain ⟨rfl, relinked⟩ := ended.linked wal rfl
          have written :=
            sound.written made (admissible.1 call made) relinked
          exact ⟨op.writes, List.prefix_rfl, fun _ => rfl,
            written.checkMemtableFlush run⟩

theorem UnlinkedSound.flushUnlinked
    (sound : e.UnlinkedSound config expected) (now : UInt64)
    (run : FlushRun) :
    (e.flushUnlinked config now run).1.Sound config expected now := by
  have kept := sound.withWal (WalHandle.Unlinked.flushUnlinked
    sound.unlinked).1
  rw [OpenEngine.flushUnlinked]
  revert kept
  generalize e.wal.flushUnlinked config.wal = result
  intro kept
  obtain ⟨wal, result⟩ := result
  cases result with
  | error error => exact kept
  | ok =>
      have emptied : WalHandle.Emptied config.wal wal _ :=
        WalHandle.truncateAfterFlush_emptied wal now
      simp only [kept.flushMemtable_eq run]
      exact kept.relinked emptied.ready emptied.recovered now

theorem UnlinkedSound.shutdownUnlinked
    (sound : e.UnlinkedSound config expected)
    (admits : WalHandle.AdmitsCheckpoint config.wal e.wal.disk.engine now)
    (run : FlushRun) :
    (e.shutdownUnlinked config now run).1.Sound config expected now := by
  obtain ⟨unlinked, sameEngine⟩ :=
    WalHandle.Unlinked.flushUnlinked sound.unlinked
  have kept := sound.withWal unlinked
  rw [← sameEngine] at admits
  rw [OpenEngine.shutdownUnlinked]
  simp only [kept.flushMemtable_eq run]
  rcases WalHandle.Unlinked.markCleanShutdownUnlinked_end unlinked admits
    with refused | closed
  · obtain ⟨wal, error, result, stays, -⟩ := refused
    simp only [result]
    exact kept.withWal stays
  · obtain ⟨wal, result, relinked⟩ := closed
    simp only [result]
    exact kept.relinked relinked.ready relinked.recovered now

theorem UnlinkedSound.runOpUnlinked
    (sound : e.UnlinkedSound config expected) {op : EngineOp}
    (admissible : op.Admissible config e.wal.disk.engine now)
    (untaken : ∀ call, op.call config now = some call →
      ¬ e.wal.Takes config.wal call) (run : FlushRun) :
    ∃ front, front <+: op.writes ∧
      ((e.runOpUnlinked config op now run).2 = true → front = op.writes) ∧
      (e.runOpUnlinked config op now run).1.Sound config
        (applyWrites expected front) now := by
  cases op with
  | put key value => exact sound.runCallUnlinked admissible untaken run
  | delete key => exact sound.runCallUnlinked admissible untaken run
  | batchPut items => exact sound.runCallUnlinked admissible untaken run
  | forceFlush =>
      refine ⟨[], List.nil_prefix, fun _ => rfl, ?_⟩
      simp only [OpenEngine.runOpUnlinked, sound.flushMemtable_eq run]
      exact sound
  | flush =>
      exact ⟨[], List.nil_prefix, fun _ => rfl, sound.flushUnlinked now run⟩
  | shutdown =>
      exact ⟨[], List.nil_prefix, fun _ => rfl,
        sound.shutdownUnlinked (admissible.2 rfl) run⟩

end OpenEngine

/-! ## Crashes without a log directory -/

namespace OpenEngine

/-- The table of a flush holds the writes of the call in front of it, so the
log is not missed. -/
theorem UnlinkedSound.filled
    (sound : e.UnlinkedSound config expected) {op : EngineOp}
    {call : WalCall} (made : op.call config now = some call)
    (admissible : WalHandle.Admissible config.wal e.wal.disk.engine call)
    (levels : 0 < config.tree.levelCount) {other : WalHandle}
    {info : TableInfo} {data : DataDir}
    (image : FlushImage ⟨other, applyCall config e.tree call, e.data⟩ info
      data) (engine : WalEngine) :
    ∃ front, front <+: op.writes ∧
      EngineDisk.Sound config ⟨.empty engine, data⟩
        (applyWrites expected front) now := by
  obtain ⟨wal, holds, writtenSound⟩ := sound.exists_written made admissible
  have imaged : FlushImage ⟨wal, applyCall config e.tree call, e.data⟩ info
      data := by
    cases image with
    | before => exact .before
    | writing nonempty => exact .writing nonempty
    | complete nonempty => exact .complete nonempty
    | persisted nonempty => exact .persisted nonempty
  have imageSound := imaged.sound writtenSound
  have redundant : ParkedRedundant config
      ⟨wal, applyCall config e.tree call, e.data⟩ := by
    intro memtable _ key _ notHere
    simp only [applyCall_eq, replay_get, Option.or_eq_none_iff] at notHere
    have unlogged : lastWrite (writesOf (wal.disk.recovered config.wal))
        key = none := by
      rw [holds]
      exact notHere.1
    exact (acknowledged_of_none unlogged).symm
  have unwritten : ∀ data' : DataDir, data'.tables = e.data.tables →
      EngineDisk.Sound config ⟨.empty engine, data'⟩ expected now :=
    fun data' tables => (sound.disk now engine).of_recovered
      (WalDisk.empty_onDisk _ engine) rfl tables
  have complete : ∀ data' : DataDir, data'.Sound →
      data'.tables = (OpenEngine.dataAfterFlush
        ⟨wal, applyCall config e.tree call, e.data⟩
          ⟨info, .done, false⟩).tables →
      EngineDisk.Sound config ⟨.empty engine, data'⟩
        (applyWrites expected op.writes) now := by
    intro data' dataSound tables
    refine .of_tables (WalDisk.empty_onDisk _ engine)
      (WalDisk.empty_recovered _ engine) dataSound fun key => ?_
    simp only [tables]
    exact writtenSound.tables_hold_of_written levels
      (fun _ => by simp) redundant key
  cases imaged with
  | before => exact ⟨[], List.nil_prefix, unwritten _ rfl⟩
  | writing => exact ⟨[], List.nil_prefix, unwritten _ rfl⟩
  | complete nonempty =>
      refine ⟨op.writes, List.prefix_rfl, complete _ imageSound.data ?_⟩
      rw [OpenEngine.dataAfterFlush, if_pos nonempty]
      rfl
  | persisted nonempty =>
      refine ⟨op.writes, List.prefix_rfl, complete _ imageSound.data ?_⟩
      rw [OpenEngine.dataAfterFlush, if_pos nonempty]

/-- The flush of an empty memtable does nothing. -/
theorem UnlinkedSound.flushImage
    (sound : e.UnlinkedSound config expected) {info : TableInfo}
    {data : DataDir} (image : FlushImage e info data) : data = e.data := by
  cases image with
  | before => rfl
  | writing nonempty => exact absurd nonempty sound.empty
  | complete nonempty => exact absurd nonempty sound.empty
  | persisted nonempty => exact absurd nonempty sound.empty

end OpenEngine

theorem UnlinkedImage.sound
    {op : EngineOp} {disk : EngineDisk}
    (image : UnlinkedImage config now e op disk)
    (levels : 0 < config.tree.levelCount)
    (sound : e.UnlinkedSound config expected)
    (admissible : op.Admissible config e.wal.disk.engine now) :
    ∃ front, front <+: op.writes ∧
      disk.Sound config (applyWrites expected front) now := by
  cases image with
  | unlogged => exact ⟨[], List.nil_prefix, sound.disk now _⟩
  | @starting call m cut made segment =>
      have above : ∀ file ∈ ([] : List WalFile), file.id < m.counter :=
        fun file member => absurd member List.not_mem_nil
      have survives : FileWal.Survives .segment config.wal [] _ :=
        FileWal.created_survives FileWal.onDisk_nil above now cut
      exact ⟨[], List.nil_prefix,
        .of_tables survives.onDisk survives.recovered sound.data sound.held⟩
  | @logging call m dir made segment logImage =>
      have unlinked := sound.unlinked
      have admissibleCall := admissible.1 call made
      rw [segment] at unlinked admissibleCall
      obtain ⟨ready, empty⟩ := FileWal.Unlinked.restart unlinked now
      let restarted : OpenEngine :=
        ⟨.segment (FileWal.restart .segment config.wal m now), e.tree,
          e.data⟩
      have isReady : restarted.wal.Ready config.wal := ready
      have restartedSound : restarted.Sound config expected now :=
        sound.relinked isReady empty now
      exact logImage.sound (e := restarted) restartedSound rfl made
        (UInt64.le_refl now) admissibleCall
  | @logged call log made called =>
      have ended := WalHandle.Unlinked.callUnlinked_end sound.unlinked
        (admissible.1 call made)
      rw [called] at ended
      cases log with
      | unlinked wal => exact ⟨[], List.nil_prefix, sound.disk now _⟩
      | linked wal =>
          obtain ⟨-, relinked⟩ := ended.linked wal rfl
          exact ⟨op.writes, List.prefix_rfl,
            (sound.written made (admissible.1 call made) relinked).disk⟩
  | @filled call log written info data made called same _ flushImage =>
      have ended := WalHandle.Unlinked.callUnlinked_end sound.unlinked
        (admissible.1 call made)
      rw [called] at ended
      cases log with
      | unlinked wal =>
          subst same
          exact sound.filled made (admissible.1 call made) levels flushImage _
      | linked wal =>
          obtain ⟨-, relinked⟩ := ended.linked wal rfl
          subst same
          exact ⟨op.writes, List.prefix_rfl, flushImage.sound
            (sound.written made (admissible.1 call made) relinked)⟩
  | flushing _ flushImage =>
      rw [sound.flushImage flushImage]
      exact ⟨[], List.nil_prefix, sound.disk now _⟩

/-! ## What is not in memory -/

theorem writtenKeys_append (front back : List EngineEvent) :
    writtenKeys (front ++ back) = writtenKeys front ++ writtenKeys back :=
  List.flatMap_append

theorem Outcome.unwritten
    {events : List EngineEvent}
    (outcome : Outcome List.IsPrefix events expected) {key : String}
    (other : key ∉ writtenKeys events) : expected key = none := by
  have unchanged : ∀ (before : String → Option Value)
      (writes : List (String × Value)), before key = none →
      key ∉ writes.map (·.1) → applyWrites before writes key = none := by
    intro before writes missing notHere
    have none : lastWrite writes key = none := by
      rw [lastWrite_eq_none_iff]
      intro write member same
      exact notHere (List.mem_map.mpr ⟨write, member, same⟩)
    rw [applyWrites_eq, none]
    exact missing
  induction outcome with
  | start => rfl
  | @acknowledged events expected writes _ inductionHypothesis =>
      rw [writtenKeys_append, List.mem_append, not_or] at other
      refine unchanged _ writes (inductionHypothesis other.1) ?_
      simpa [writtenKeys, EngineEvent.writes] using other.2
  | @unacknowledged events expected part writes _ isPrefix
      inductionHypothesis =>
      rw [writtenKeys_append, List.mem_append, not_or] at other
      refine unchanged _ part (inductionHypothesis other.1) ?_
      intro member
      have inWrites : key ∈ writes.map (·.1) :=
        (isPrefix.map _).subset member
      exact other.2 (by simpa [writtenKeys, EngineEvent.writes] using inWrites)

/-- The tree in memory shows no key but some. -/
structure LsmTree.Quiet (config : CompactionConfig) (tree : LsmTree)
    (keys : List String) : Prop where
  upToDate : ∃ held, UpToDate config tree held ∧
    ∀ key, key ∉ keys → held key = none
  parked : ∀ key, key ∉ keys → ∀ memtable ∈ tree.immutables,
    ∀ value, memtable.data[key]? = some value → value.visible = none

namespace LsmTree.Quiet

variable {config : CompactionConfig} {tree : LsmTree} {keys : List String}

theorem get
    (quiet : tree.Quiet config keys) {key : String} (other : key ∉ keys) :
    tree.get config.levelCount key = none := by
  obtain ⟨held, upToDate, nothing⟩ := quiet.upToDate
  rw [← nothing key other, upToDate.get_eq_iff key]
  intro _
  constructor
  · intro value parked
    obtain ⟨memtable, member, found⟩ :=
      List.exists_of_findSome?_eq_some parked
    rw [quiet.parked key other memtable member value found,
      nothing key other]
  · exact fun _ _ => nothing key other

theorem mono
    (quiet : tree.Quiet config keys) {keys' : List String}
    (more : ∀ key ∈ keys, key ∈ keys') : tree.Quiet config keys' := by
  obtain ⟨held, upToDate, nothing⟩ := quiet.upToDate
  exact ⟨⟨held, upToDate, fun key other =>
      nothing key fun member => other (more key member)⟩,
    fun key other => quiet.parked key fun member =>
      other (more key member)⟩

theorem flush
    (quiet : tree.Quiet config keys) (existing : List SstableName)
    (info : TableInfo) (outcome : FlushOutcome) :
    (tree.flushMemtableInternal existing info outcome).1.Quiet config
      keys := by
  obtain ⟨held, upToDate, nothing⟩ := quiet.upToDate
  refine ⟨⟨held, upToDate.flush existing info outcome, nothing⟩, ?_⟩
  intro key other memtable member value found
  have old : ∀ memtable ∈ tree.immutables ++ [tree.active],
      memtable.data[key]? = some value → value.visible = none := by
    intro memtable member found
    rcases List.mem_append.mp member with parked | active
    · exact quiet.parked key other memtable parked value found
    · rw [List.mem_singleton.mp active] at found
      rw [upToDate.active key value found, nothing key other]
  refine old memtable ?_ found
  cases outcome with
  | done =>
      unfold flushMemtableInternal at member
      split at member <;> exact List.mem_append_left _ member
  | failedWriting | failedOpening =>
      unfold flushMemtableInternal at member
      split at member
      · exact member
      · exact List.mem_append_left _ member

theorem applyCall
    {engine : EngineConfig} {tree : LsmTree}
    (quiet : tree.Quiet engine.tree keys) {call : WalCall}
    (written : ∀ write ∈ writesOf call.entries, write.1 ∈ keys) :
    (OpenEngine.applyCall engine tree call).Quiet engine.tree keys := by
  obtain ⟨held, upToDate, nothing⟩ := quiet.upToDate
  refine ⟨⟨_, upToDate.applyCall call, ?_⟩, ?_⟩
  · intro key other
    have none : lastWrite (writesOf call.entries) key = none := by
      rw [lastWrite_eq_none_iff]
      intro write member same
      exact other (same ▸ written write member)
    rw [applyWrites_eq, none]
    exact nothing key other
  · rw [OpenEngine.applyCall_eq]
    exact quiet.parked

/-- Without parked memtables nothing but what is held is shown. -/
theorem of_upToDate
    (upToDate : UpToDate config tree expected)
    (unparked : tree.immutables = [])
    (nothing : ∀ key, key ∉ keys → expected key = none) :
    tree.Quiet config keys := by
  refine ⟨⟨expected, upToDate, nothing⟩, ?_⟩
  intro key _ memtable member
  rw [unparked] at member
  exact absurd member List.not_mem_nil

/-- Dropping the parked memtables. -/
theorem unpark
    (quiet : tree.Quiet config keys)
    (hidesNothing : ∀ memtable ∈ tree.immutables, ∀ key value,
      memtable.data[key]? = some value → value.visible = none →
        tree.active.data[key]? = none →
          getFromSstables config.levelCount tree.levels key = none) :
    Quiet config { tree with immutables := [] } keys := by
  obtain ⟨held, upToDate, nothing⟩ := quiet.upToDate
  let shown : String → Option Value := fun key =>
    tree.active.data[key]?.elim
      (getFromSstables config.levelCount tree.levels key) Value.visible
  have dropped : UpToDate config { tree with immutables := [] } shown := by
    constructor
    case invariant => exact upToDate.invariant.advance _ _ le_rfl
    case active =>
      intro key value found
      simp only at found
      simp only [shown, found, Option.elim_some]
    case tables =>
      intro _ key missing
      have notHere := (memtableValue_cons_eq_none_iff.mp missing).1
      simp only at notHere
      simp only [shown, notHere, Option.elim_none]
  apply of_upToDate dropped rfl
  intro key other
  cases here : tree.active.data[key]? with
  | some value =>
      simp only [shown, here, Option.elim_some]
      rw [upToDate.active key value here, nothing key other]
  | none =>
      simp only [shown, here, Option.elim_none]
      rcases Nat.eq_zero_or_pos config.levelCount with zero | levels
      · rw [zero]
        rfl
      · cases parked : memtableValue tree.immutables key with
        | some value =>
            obtain ⟨memtable, member, found⟩ :=
              List.exists_of_findSome?_eq_some parked
            exact hidesNothing memtable member key value found
              (quiet.parked key other memtable member value found) here
        | none =>
            rw [← nothing key other]
            exact upToDate.tables levels key
              (memtableValue_cons_eq_none_iff.mpr ⟨here, parked⟩)

end LsmTree.Quiet

namespace OpenEngine

variable {keys : List String}

/-- What an operation does to the tree in memory. -/
theorem quiet_runOp
    (quiet : e.tree.Quiet config.tree keys) (op : EngineOp) (now : UInt64)
    (run : FlushRun)
    (written : ∀ write ∈ op.writes, write.1 ∈ keys) :
    (e.runOp config op now run).1.tree.Quiet config.tree keys := by
  refine runOp_tree (fun tree => tree.Quiet config.tree keys) ?_ ?_ quiet
  · intro tree existing before
    exact before.flush existing run.info run.outcome
  · intro tree call made before
    refine before.applyCall ?_
    rw [(EngineOp.call_entries made).1]
    exact written

theorem quiet_runCallUnlinked
    (quiet : e.tree.Quiet config.tree keys) (op : EngineOp) (now : UInt64)
    (run : FlushRun)
    (written : ∀ write ∈ op.writes, write.1 ∈ keys) {after : OpenEngine}
    (serves : (e.runCallUnlinked config op now run).1.engine? = some after) :
    after.tree.Quiet config.tree keys := by
  have engine : ∀ (log : LogState WalHandle) (e : OpenEngine),
      (ServicePhase.serving log e).engine? = some e := by
    intro log e
    cases log <;> rfl
  rw [OpenEngine.runCallUnlinked] at serves
  cases made : op.call config now with
  | none =>
      simp only [made] at serves
      cases serves
      exact quiet
  | some call =>
      simp only [made] at serves
      revert serves
      generalize e.wal.callUnlinked config.wal call = result
      obtain ⟨log, result⟩ := result
      cases result with
      | error error =>
          intro serves
          rw [engine] at serves
          cases serves
          exact quiet
      | ok =>
          intro serves
          rw [engine] at serves
          cases serves
          refine checkMemtableFlush_tree
            (fun tree => tree.Quiet config.tree keys) ?_ ?_
          · intro tree existing before
            exact before.flush existing run.info run.outcome
          · refine quiet.applyCall ?_
            rw [(EngineOp.call_entries made).1]
            exact written

theorem UnlinkedSound.quiet_runOpUnlinked
    (sound : e.UnlinkedSound config expected)
    (quiet : e.tree.Quiet config.tree keys) (op : EngineOp) (now : UInt64)
    (run : FlushRun)
    (written : ∀ write ∈ op.writes, write.1 ∈ keys) {after : OpenEngine}
    (serves : (e.runOpUnlinked config op now run).1.engine? = some after) :
    after.tree.Quiet config.tree keys := by
  obtain ⟨unlinked, -⟩ := WalHandle.Unlinked.flushUnlinked sound.unlinked
  have kept := sound.withWal unlinked
  cases op with
  | put key value =>
      exact quiet_runCallUnlinked quiet (.put key value) now run written
        serves
  | delete key =>
      exact quiet_runCallUnlinked quiet (.delete key) now run written serves
  | batchPut items =>
      exact quiet_runCallUnlinked quiet (.batchPut items) now run written
        serves
  | forceFlush =>
      simp only [OpenEngine.runOpUnlinked, sound.flushMemtable_eq run,
        ServicePhase.engine?, Option.some.injEq] at serves
      rw [← serves]
      exact quiet
  | flush =>
      simp only [OpenEngine.runOpUnlinked, OpenEngine.flushUnlinked]
        at serves
      revert kept serves
      generalize e.wal.flushUnlinked config.wal = result
      obtain ⟨wal, result⟩ := result
      intro kept serves
      cases result with
      | error error =>
          cases serves
          exact quiet
      | ok =>
          simp only [kept.flushMemtable_eq run, ServicePhase.engine?,
            Option.some.injEq] at serves
          rw [← serves]
          exact quiet
  | shutdown =>
      simp only [OpenEngine.runOpUnlinked, OpenEngine.shutdownUnlinked,
        kept.flushMemtable_eq run] at serves
      revert serves
      generalize WalHandle.markCleanShutdownUnlinked config.wal _ now =
        result
      obtain ⟨log, result⟩ := result
      cases log <;> cases result <;> rintro ⟨⟩ <;> exact quiet

end OpenEngine

theorem EngineEvent.writes_ofRun (op : EngineOp) (done : Bool) :
    (EngineEvent.ofRun op done).writes = op.writes := by
  cases done <;> rfl

theorem mem_writtenKeys_ofRun
    {op : EngineOp} (done : Bool) {write : String × Value}
    (member : write ∈ op.writes) :
    write.1 ∈ writtenKeys [EngineEvent.ofRun op done] := by
  rw [writtenKeys, List.flatMap_singleton, EngineEvent.writes_ofRun]
  exact List.mem_map_of_mem member

/-- A step with a log directory. -/
theorem DurableStep.quiet
    {phase phase' : EnginePhase} {added : List EngineEvent}
    {clock' : UInt64} {action : DurableAction} {keys : List String}
    (taken : DurableStep config ⟨phase, [], clock⟩ action
      ⟨phase', added, clock'⟩)
    (sound : phase.Sound config expected clock)
    (nothing : ∀ key, key ∉ keys → expected key = none)
    (quiet : ∀ e, phase = .up e → e.tree.Quiet config.tree keys) :
    ∀ e, phase' = .up e →
      e.tree.Quiet config.tree (keys ++ writtenKeys added) := by
  intro after up
  cases taken with
  | reopen opened =>
      obtain ⟨e, result, loaded, unparked, openSound⟩ :=
        EngineDisk.Sound.opens sound _
      cases opened.symm.trans result
      cases up
      have upToDate := openSound.upToDate
      rw [← loaded] at upToDate
      refine .of_upToDate upToDate unparked fun key other => ?_
      exact nothing key fun member => other (List.mem_append_left _ member)
  | @run e events clock now op run =>
      cases up
      refine OpenEngine.quiet_runOp ((quiet e rfl).mono ?_) op clock' run ?_
      · exact fun key member => List.mem_append_left _ member
      · exact fun write member => List.mem_append_right _
          (mem_writtenKeys_ofRun _ member)
  | crashReopening _ => exact absurd up (by simp)
  | crash _ => exact absurd up (by simp)
  | crashTruncating _ _ _ _ => exact absurd up (by simp)
  | stop => exact absurd up (by simp)

/-! ## Tables that come back -/

/-- The tables on the disk and in memory come back. -/
def ServicePhase.Reloads : ServicePhase → Prop
  | .linked phase => phase.Reloads
  | .unlinked e => e.Reloads

theorem ServicePhase.Reloads.serves {phase : ServicePhase}
    (reloads : phase.Reloads) (serves : phase.engine? = some e) :
    e.Reloads := by
  cases phase with
  | linked phase =>
      cases phase with
      | down disk => exact absurd serves (by simp [ServicePhase.engine?])
      | up other =>
          cases serves
          exact reloads
  | unlinked other =>
      cases serves
      exact reloads

theorem ServicePhase.serving_reloads (log : LogState WalHandle)
    (reloads : e.Reloads) : (ServicePhase.serving log e).Reloads := by
  cases log <;> exact reloads

namespace OpenEngine

theorem Reloads.recoverFromCorruption (reloads : e.Reloads)
    {run : FlushRun}
    (active : run.outcome ≠ .failedWriting → e.tree.active.Reloads) :
    (e.recoverFromCorruption run).Reloads := by
  have unparked : Reloads
      ⟨e.wal.unlink, { e.tree with immutables := [] }, e.data⟩ :=
    reloads.of_tables rfl rfl
  exact unparked.flushMemtable active

theorem Reloads.runCallUnlinked (reloads : e.Reloads) {op : EngineOp}
    {run : FlushRun}
    (flushes : run.outcome ≠ .failedWriting →
      ∀ m ∈ e.flushed? config op now, m.Reloads) :
    (e.runCallUnlinked config op now run).1.Reloads := by
  rw [OpenEngine.runCallUnlinked]
  cases made : op.call config now with
  | none => exact reloads
  | some call =>
      simp only
      generalize e.wal.callUnlinked config.wal call = result
      obtain ⟨log, result⟩ := result
      cases result with
      | error error =>
          exact ServicePhase.serving_reloads log (reloads.of_tables rfl rfl)
      | ok =>
          have written : Reloads
              ⟨log.wal, applyCall config e.tree call, e.data⟩ :=
            reloads.of_tables rfl (applyCall_levels e.tree call)
          apply ServicePhase.serving_reloads log
          exact written.checkMemtableFlush fun outcome full =>
            reloads_of_flushed (flushes outcome) made full

theorem Reloads.runOpUnlinked (reloads : e.Reloads) {op : EngineOp}
    {run : FlushRun}
    (flushes : run.outcome ≠ .failedWriting →
      ∀ m ∈ e.flushed? config op now, m.Reloads) :
    (e.runOpUnlinked config op now run).1.Reloads := by
  have called : (e.runCallUnlinked config op now run).1.Reloads :=
    reloads.runCallUnlinked flushes
  cases op with
  | put key value => exact called
  | delete key => exact called
  | batchPut items => exact called
  | forceFlush =>
      exact reloads.flushMemtable fun outcome => flushes outcome _ rfl
  | flush =>
      have active := fun outcome => flushes outcome e.tree.active rfl
      simp only [OpenEngine.runOpUnlinked, OpenEngine.flushUnlinked]
      generalize e.wal.flushUnlinked config.wal = synced
      obtain ⟨wal, synced⟩ := synced
      have linked : Reloads ⟨wal, e.tree, e.data⟩ :=
        reloads.of_tables rfl rfl
      cases synced with
      | error error => exact linked
      | ok =>
          have kept := linked.flushMemtable active
          simp only
          revert kept
          generalize OpenEngine.flushMemtable ⟨wal, e.tree, e.data⟩ run =
            result
          intro kept
          obtain ⟨after, success⟩ := result
          cases success with
          | false => exact kept
          | true => exact kept.of_tables rfl rfl
  | shutdown =>
      have active := fun outcome => flushes outcome e.tree.active rfl
      simp only [OpenEngine.runOpUnlinked, OpenEngine.shutdownUnlinked]
      generalize (e.wal.flushUnlinked config.wal).1 = wal
      have linked : Reloads ⟨wal, e.tree, e.data⟩ :=
        reloads.of_tables rfl rfl
      have kept := linked.flushMemtable active
      revert kept
      generalize OpenEngine.flushMemtable ⟨wal, e.tree, e.data⟩ run = result
      intro kept
      obtain ⟨after, success⟩ := result
      cases success with
      | false => exact kept
      | true =>
          simp only
          generalize after.wal.markCleanShutdownUnlinked config.wal now =
            closed
          obtain ⟨log, closed⟩ := closed
          cases closed <;>
            exact ServicePhase.serving_reloads log (kept.of_tables rfl rfl)

end OpenEngine

theorem UnlinkedImage.reloads {op : EngineOp} {disk : EngineDisk}
    (image : UnlinkedImage config now e op disk) (reloads : e.Reloads)
    (flushes : disk.data.tables ≠ e.data.tables →
      ∀ m ∈ e.flushed? config op now, m.Reloads) :
    disk.data.Reloads := by
  cases image with
  | unlogged => exact reloads.data
  | starting => exact reloads.data
  | logging => exact reloads.data
  | logged => exact reloads.data
  | @filled call log written info data made _ same full flushImage =>
      subst same
      refine flushImage.reloads
        (reloads.of_tables rfl (OpenEngine.applyCall_levels e.tree call)) ?_
      exact fun more =>
        OpenEngine.reloads_of_flushed (flushes more) made full
  | flushing isFlush flushImage =>
      refine flushImage.reloads reloads fun more => flushes more _ ?_
      rcases isFlush with rfl | rfl <;> rfl

theorem ServiceStep.reloads {state state' : ServiceState}
    {action : ServiceAction} (reloads : state.phase.Reloads)
    (flushes : ServiceFlushesReload config state action)
    (taken : ServiceStep config state action state') :
    state'.phase.Reloads := by
  cases taken with
  | @durable phase phase' events added clock clock' action step =>
      have before : EnginePhase.Reloads
          (DurableState.phase ⟨phase, [], clock⟩) := reloads
      exact step.reloads before (flushes phase rfl)
  | run =>
      exact OpenEngine.Reloads.runOpUnlinked reloads (flushes _ rfl)
  | crash image => exact image.reloads reloads (flushes _ rfl)
  | stop => exact OpenEngine.Reloads.data reloads
  | clear serves =>
      exact ⟨(reloads.serves serves).data,
        fun _ _ member => absurd member List.not_mem_nil⟩
  | recoverFromCorruption serves =>
      exact (reloads.serves serves).recoverFromCorruption
        (flushes _ serves)
  | crashRecovering serves image =>
      exact image.reloads (reloads.serves serves) (flushes _ serves)

theorem ServiceState.disk_reloads {state : ServiceState}
    (reloads : state.phase.Reloads) : state.disk.data.Reloads := by
  rw [ServiceState.disk]
  cases at' : state.phase with
  | linked phase =>
      rw [at'] at reloads
      have linked : (DurableState.mk phase [] state.clock).phase.Reloads :=
        reloads
      exact DurableState.disk_reloads linked
  | unlinked e =>
      rw [at'] at reloads
      exact OpenEngine.Reloads.data reloads

theorem ServiceState.reaches_reloads {engine : WalEngine}
    {state : ServiceState}
    (run : Reaches (ServiceStep config) (ServiceFlushesReload config)
      (.created engine) state) : state.phase.Reloads :=
  run.invariant (fun state => state.phase.Reloads)
    (fun _ member => absurd member List.not_mem_nil)
    fun _ _ _ reloads flushes taken => taken.reloads reloads flushes

/-! ## What a run keeps -/

def ServiceState.Sound (config : EngineConfig) (state : ServiceState) :
    Prop :=
  ∃ expected, Outcome List.IsPrefix state.events expected ∧
    state.phase.Sound config expected state.clock ∧
    ∀ e, state.phase.engine? = some e →
      e.tree.Quiet config.tree (writtenKeys state.events)

theorem ServicePhase.Sound.disk_sound
    {phase : ServicePhase} {events : List EngineEvent}
    (sound : phase.Sound config expected clock) :
    (ServiceState.disk ⟨phase, events, clock⟩).Sound config expected
      clock := by
  cases phase with
  | linked phase =>
      have sound : phase.Sound config expected clock := sound
      exact DurableState.disk_sound sound
  | unlinked e => exact OpenEngine.UnlinkedSound.disk sound clock _

/-- The structure that every engine has which answers. -/
theorem ServicePhase.Sound.serves
    {phase : ServicePhase} (sound : phase.Sound config expected clock)
    (serves : phase.engine? = some e) :
    e.wal.unlink.Unlinked config.wal ∧ e.data.Sound ∧
      e.diskTree.Invariant config.tree := by
  cases phase with
  | linked phase =>
      cases phase with
      | down disk => exact absurd serves (by simp [ServicePhase.engine?])
      | up other =>
          cases serves
          have sound : e.Sound config expected clock := sound
          exact ⟨WalHandle.Ready.unlink sound.ready, sound.disk.data,
            sound.upToDate.invariant⟩
  | unlinked other =>
      cases serves
      have sound : e.UnlinkedSound config expected := sound
      exact ⟨WalHandle.Unlinked.unlink sound.unlinked, sound.data,
        sound.upToDate.invariant⟩

theorem ServiceStep.sound
    {state state' : ServiceState} {action : ServiceAction}
    (levels : 0 < config.tree.levelCount) (sound : state.Sound config)
    (unharmed : Unharmed config state action)
    (taken : ServiceStep config state action state') :
    state'.Sound config := by
  obtain ⟨expected, outcome, phaseSound, quiet⟩ := sound
  cases taken with
  | @durable phase phase' events added clock clock' action step =>
      have careful := unharmed phase rfl
      have phaseSound : EnginePhase.Sound config
          (DurableState.phase ⟨phase, [], clock⟩) expected
          (DurableState.clock ⟨phase, [], clock⟩) := phaseSound
      obtain ⟨_, expected', same, follows, after⟩ :=
        step.keeps levels phaseSound careful
      cases same
      refine ⟨expected', follows events outcome, after, ?_⟩
      intro e serves
      rw [writtenKeys_append]
      refine step.quiet phaseSound (fun key => outcome.unwritten) ?_ e ?_
      · intro e up
        subst up
        exact quiet e rfl
      · cases phase' with
        | down disk => exact absurd serves (by simp [ServicePhase.engine?])
        | up other =>
            cases serves
            rfl
  | @run e events clock now op run =>
      obtain ⟨-, conditions⟩ := unharmed
      obtain ⟨admissible, untaken⟩ := conditions e rfl
      have sound : e.UnlinkedSound config expected := phaseSound
      obtain ⟨front, isPrefix, whole, after⟩ :=
        sound.runOpUnlinked admissible untaken run
      refine ⟨applyWrites expected front, ?_, after, ?_⟩
      · cases done : (e.runOpUnlinked config op now run).2 with
        | true =>
            rw [whole done]
            exact .acknowledged outcome
        | false => exact .unacknowledged outcome isPrefix
      · intro other serves
        rw [writtenKeys_append]
        refine sound.quiet_runOpUnlinked ((quiet e rfl).mono ?_) op now run
          ?_ serves
        · exact fun key member => List.mem_append_left _ member
        · exact fun write member => List.mem_append_right _
            (mem_writtenKeys_ofRun _ member)
  | @crash e events clock now op disk image =>
      obtain ⟨-, admissible⟩ := unharmed
      have sound : e.UnlinkedSound config expected := phaseSound
      obtain ⟨front, isPrefix, after⟩ :=
        image.sound levels sound (admissible e rfl)
      exact ⟨_, .unacknowledged outcome isPrefix, after,
        fun other serves => absurd serves (by simp [ServicePhase.engine?])⟩
  | @stop e events clock =>
      have sound : e.UnlinkedSound config expected := phaseSound
      exact ⟨expected, outcome, sound.disk clock _,
        fun other serves => absurd serves (by simp [ServicePhase.engine?])⟩
  | @clear phase e events clock serves =>
      obtain ⟨unlinked, data, invariant⟩ := phaseSound.serves serves
      have cleared := OpenEngine.clear_sound unlinked data invariant
        (unharmed e serves)
      refine ⟨_, .start, cleared, ?_⟩
      rintro _ ⟨⟩
      have empty : UpToDate config.tree e.clear.tree fun _ => none := by
        constructor
        case invariant =>
          exact LsmTree.invariant_of_no_tables config.tree _ _ _
        case active =>
          intro key value found
          exact absurd found (by simp [OpenEngine.clear])
        case tables => exact fun _ key _ => getFromSstables_of_nil _ key
      exact .of_upToDate empty rfl fun _ _ => rfl
  | @recoverFromCorruption phase e events clock run serves =>
      obtain ⟨hidesNothing, safe⟩ := unharmed e serves
      refine ⟨expected, outcome, ?_, ?_⟩
      · cases phase with
        | linked phase =>
            cases phase with
            | down disk =>
                exact absurd serves (by simp [ServicePhase.engine?])
            | up other =>
                cases serves
                exact OpenEngine.Sound.recoverFromCorruption phaseSound
                  levels (safe rfl)
        | unlinked other =>
            cases serves
            exact OpenEngine.UnlinkedSound.recoverFromCorruption phaseSound
              run
      · rintro _ ⟨⟩
        exact ((quiet e serves).unpark hidesNothing).flush e.data.names
          run.info run.outcome
  | @crashRecovering phase e events clock info data serves image =>
      refine ⟨expected, outcome, ?_,
        fun other serves => absurd serves (by simp [ServicePhase.engine?])⟩
      cases phase with
      | linked phase =>
          cases phase with
          | down disk => exact absurd serves (by simp [ServicePhase.engine?])
          | up other =>
              cases serves
              have sound : e.Sound config expected clock := phaseSound
              refine EngineDisk.Sound.of_tables (WalDisk.empty_onDisk _ _)
                (WalDisk.empty_recovered _ _) (image.sound sound).data ?_
              intro key
              exact (unharmed e rfl key).trans (sound.disk.held key)
      | unlinked other =>
          cases serves
          have sound : e.UnlinkedSound config expected := phaseSound
          rw [sound.flushImage image]
          exact sound.disk clock _

theorem ServiceState.created_sound (engine : WalEngine) :
    (ServiceState.created engine).Sound config := by
  have created : (DurableState.created engine).Sound config :=
    DurableState.created_sound engine
  obtain ⟨expected, outcome, phase⟩ := created
  exact ⟨expected, outcome, phase,
    fun e serves => absurd serves (by simp [created,
      ServicePhase.engine?])⟩

/-- Unharmed steps whose flushes write tables that come back. -/
def UnharmedFlushes (config : EngineConfig) (state : ServiceState)
    (action : ServiceAction) : Prop :=
  Unharmed config state action ∧ ServiceFlushesReload config state action

/-- When `clear` finds no table that shows a key, nothing is written into a
removed log file, the log is not removed while it is needed and every table
that is written opens again, a start reads the writes since the last `clear`
and no other, and neither does the engine that is running. -/
theorem cleared_engine_stays_durable
    {engine : WalEngine} {state : ServiceState}
    (levels : 0 < config.tree.levelCount)
    (run : Reaches (ServiceStep config) (UnharmedFlushes config)
      (.created engine) state) :
    ∃ expected, Outcome List.IsPrefix state.events expected ∧
      state.disk.Restores config expected ∧
      ∀ key, key ∉ writtenKeys state.events →
        expected key = none ∧
        ∀ e, state.phase.engine? = some e →
          e.tree.getChecked config.tree.levelCount key = none := by
  have sound : state.Sound config := run.invariant
    (ServiceState.Sound config) (ServiceState.created_sound engine)
    fun _ _ _ sound unharmed taken => taken.sound levels sound unharmed.1
  have reloads : state.phase.Reloads := ServiceState.reaches_reloads
    (run.mono fun _ _ unharmed => unharmed.2)
  obtain ⟨expected, outcome, phaseSound, quiet⟩ := sound
  have recovers : state.disk.Recovers config expected :=
    phaseSound.disk_sound.recovers levels
  refine ⟨expected, outcome,
    recovers.restores (ServiceState.disk_reloads reloads), ?_⟩
  intro key other
  refine ⟨outcome.unwritten other, fun e serves => ?_⟩
  rw [(reloads.serves serves).getChecked_eq]
  exact (quiet e serves).get other

end

/-! ## Runs that clear -/

/-- The engine behind `clear` and a flush. -/
def relinkedEngine : OpenEngine :=
  ⟨(openedEngine.clear.wal.flushUnlinked smallEngine.wal).1.truncateAfterFlush
    smallEngine.wal 2, openedEngine.clear.tree, openedEngine.data⟩

def writtenAgain : OpenEngine :=
  (relinkedEngine.runOp smallEngine (.put "k" (.bool true)) 3 wholeFlush).1

def clearedState : ServiceState :=
  ⟨.linked (.down writtenAgain.disk),
    [.acknowledged [], .acknowledged [("k", .bool true)]], 3⟩

/-- A step that neither writes nor is answered. -/
theorem ServiceStep.silent
    {config : EngineConfig} {phase phase' : EnginePhase}
    {clock clock' : UInt64} {action : DurableAction}
    (step : DurableStep config ⟨phase, [], clock⟩ action
      ⟨phase', [], clock'⟩) (events : List EngineEvent) :
    ServiceStep config ⟨.linked phase, events, clock⟩ (.durable action)
      ⟨.linked phase', events, clock'⟩ := by
  have durable : ServiceStep config ⟨.linked phase, events, clock⟩
      (.durable action) ⟨.linked phase', events ++ [], clock'⟩ :=
    .durable step
  rwa [List.append_nil] at durable

theorem put_admissible {now : UInt64} (soon : now = 2 ∨ now = 3) :
    EngineOp.Admissible smallEngine .segment now
      (.put "k" (.bool true)) := by
  constructor
  · intro call made
    obtain rfl := Option.some.inj made
    intro entry member
    rw [List.mem_singleton.mp member]
    rcases soon with rfl | rfl
    · exact ⟨by decide, by decide, rfl⟩
    · exact ⟨by decide, by decide, rfl⟩
  · intro other
    exact absurd other (by simp)

theorem flush_admissible (now : UInt64) :
    EngineOp.Admissible smallEngine .segment now .flush := by
  constructor
  · intro call made
    exact absurd made (by simp [EngineOp.call])
  · intro other
    exact absurd other (by simp)

theorem clearedState_reached :
    Reaches (ServiceStep smallEngine) (UnharmedFlushes smallEngine)
      (.created .segment) clearedState := by
  have opened : Reaches (ServiceStep smallEngine)
      (UnharmedFlushes smallEngine) (.created .segment)
      ⟨.linked (.up openedEngine), [], 0⟩ := by
    apply (Reaches.start _).next (.durable (.reopen 1)) ?_
      (.silent (.reopen openedEngine_opens) [])
    refine ⟨fun phase same => ?_, fun _ _ _ _ => trivial⟩
    cases same
    exact ⟨trivial, fun e up => absurd up (by simp)⟩
  have cleared : Reaches (ServiceStep smallEngine)
      (UnharmedFlushes smallEngine) (.created .segment)
      ⟨.unlinked openedEngine.clear, [], 0⟩ := by
    apply opened.next .clear ⟨?_, trivial⟩ (.clear rfl)
    intro e serves key
    cases serves
    exact getFromSstables_loadLevel_nil 7 key
  have relinked : Reaches (ServiceStep smallEngine)
      (UnharmedFlushes smallEngine) (.created .segment)
      ⟨.linked (.up relinkedEngine), [.acknowledged []], 2⟩ := by
    apply cleared.next (.run .flush 2 wholeFlush) ⟨⟨?_, ?_⟩, ?_⟩ .run
    · decide
    · intro e same
      cases same
      exact ⟨flush_admissible 2,
        fun call made => absurd made (by simp [EngineOp.call])⟩
    · rintro e ⟨⟩ - m flushed
      cases flushed
      exact Memtable.new_reloads
  have written : Reaches (ServiceStep smallEngine)
      (UnharmedFlushes smallEngine) (.created .segment)
      ⟨.linked (.up writtenAgain),
        [.acknowledged [], .acknowledged [("k", .bool true)]], 3⟩ := by
    apply relinked.next (.durable (.run (.put "k" (.bool true)) 3 wholeFlush))
      ⟨fun phase same => ?_, fun phase same => ?_⟩ (.durable .run)
    · cases same
      refine ⟨⟨by decide, put_admissible (.inr rfl)⟩,
        fun e up truncates => ?_⟩
      rcases truncates with isFlush | isShutdown
      · exact absurd isFlush (by simp)
      · exact absurd isShutdown (by simp)
    · cases same
      rintro e ⟨⟩ - m flushed
      rw [flushed?_put_of_new rfl 3] at flushed
      cases flushed
  apply written.next (.durable .stop) ⟨?_, fun _ _ _ _ => trivial⟩
    (.silent .stop _)
  intro phase same
  cases same
  exact ⟨trivial, fun e up => trivial⟩

/-- The key that is written again is the only one that is read. -/
theorem clearedState_recovers :
    ∃ expected, Outcome List.IsPrefix clearedState.events expected ∧
      clearedState.disk.Restores smallEngine expected ∧
      ∀ key, key ∉ writtenKeys clearedState.events →
        expected key = none ∧
        ∀ e, clearedState.phase.engine? = some e →
          e.tree.getChecked smallEngine.tree.levelCount key = none :=
  cleared_engine_stays_durable (by decide) clearedState_reached

/-- Nothing fails, the clock does not go backwards and every table that is
written opens again. -/
def Undisturbed (config : EngineConfig) (state : ServiceState)
    (action : ServiceAction) : Prop :=
  ServiceFlushesReload config state action ∧
    match action with
    | .durable action => ∀ phase, state.phase = .linked phase →
        Faultless config ⟨phase, [], state.clock⟩ action
    | .run op now run => state.clock ≤ now ∧ run.outcome = .done ∧
        ∀ e, state.phase = .unlinked e →
          op.Admissible config e.wal.disk.engine now
    | .stop => True
    | .clear => True
    | _ => False

def engineWithPut : OpenEngine :=
  (openedEngine.runOp smallEngine (.put "k" (.bool true)) 2 wholeFlush).1

/-- The engine behind a put and a flush. -/
def filledEngine : OpenEngine :=
  (engineWithPut.runOp smallEngine .flush 3 wholeFlush).1

theorem engineWithPut_reloads : engineWithPut.tree.active.Reloads := by
  apply Memtable.Reloads.of_clean
  · exact Memtable.new_readsBack.put ⟨rfl, by decide⟩ _
  · intro entry member
    rw [List.mem_singleton.mp member]
    exact ⟨by decide, by decide⟩
  · decide

theorem filledEngine_reached :
    Reaches (DurableStep smallEngine) (Faultless smallEngine)
      (.created .segment) ⟨.up filledEngine,
        [.acknowledged [("k", .bool true)], .acknowledged []], 3⟩ := by
  apply (openedEngine_reached.next (.run (.put "k" (.bool true)) 2 wholeFlush)
    ?_ .run).next (.run .flush 3 wholeFlush) ?_ .run
  · exact ⟨⟨by decide, put_admissible (.inl rfl)⟩, rfl⟩
  · exact ⟨⟨by decide, flush_admissible 3⟩, rfl⟩

/-- The start after `clear` reads the table of the flush. -/
theorem filledEngine_cleared :
    EngineDisk.Recovers smallEngine
      (ServiceState.disk ⟨.unlinked filledEngine.clear, [], 3⟩)
      (getFromSstables 7 (loadLevel filledEngine.data.tables)) := by
  obtain ⟨⟨expected, -, sound⟩, -⟩ :=
    DurableState.faultless_sound (by decide) filledEngine_reached
  have sound : filledEngine.Sound smallEngine expected 3 := sound
  have held : EngineDisk.Sound smallEngine
      (ServiceState.disk ⟨.unlinked filledEngine.clear, [], 3⟩)
      (getFromSstables 7 (loadLevel filledEngine.data.tables)) 3 :=
    .of_tables (WalDisk.empty_onDisk _ filledEngine.clear.wal.disk.engine)
      (WalDisk.empty_recovered _ filledEngine.clear.wal.disk.engine)
      sound.disk.data fun _ => rfl
  exact held.recovers (by decide)

/-- The engine behind `clear` and a put. -/
def unloggedEngine : OpenEngine :=
  ⟨(openedEngine.clear.wal.callUnlinked smallEngine.wal
      (.writeOperation "k" (.bool true) 2)).1.wal,
    OpenEngine.applyCall smallEngine openedEngine.clear.tree
      (.writeOperation "k" (.bool true) 2), openedEngine.data⟩

/-- The put went into the log file that `clear` has removed. -/
theorem unloggedEngine_recovers :
    EngineDisk.Recovers smallEngine
      (ServiceState.disk ⟨.unlinked unloggedEngine,
        [.acknowledged [("k", .bool true)]], 2⟩) fun _ => none := by
  obtain ⟨⟨expected, -, sound⟩, -⟩ :=
    DurableState.faultless_sound (by decide) openedEngine_reached
  have sound : openedEngine.Sound smallEngine expected 0 := sound
  have held : EngineDisk.Sound smallEngine
      (ServiceState.disk ⟨.unlinked unloggedEngine,
        [.acknowledged [("k", .bool true)]], 2⟩) (fun _ => none) 2 :=
    .of_tables (WalDisk.empty_onDisk _ unloggedEngine.wal.disk.engine)
      (WalDisk.empty_recovered _ unloggedEngine.wal.disk.engine)
      sound.disk.data fun key => getFromSstables_loadLevel_nil 7 key
  exact held.recovers (by decide)

/-- A key that was flushed is read again by a start after `clear`, and a put
after `clear` is lost by a stop. -/
theorem clear_brings_back_and_loses :
    (∃ state, Reaches (ServiceStep smallEngine) (Undisturbed smallEngine)
        (.created .segment) state ∧ state.events = [] ∧
      ∃ expected, state.disk.Restores smallEngine expected ∧
        expected "k" = some (.bool true)) ∧
    ∃ state, Reaches (ServiceStep smallEngine) (Undisturbed smallEngine)
        (.created .segment) state ∧
      state.events = [.acknowledged [("k", .bool true)]] ∧
      state.disk.Restores smallEngine fun _ => none := by
  have restores : ∀ {state expected}, Reaches (ServiceStep smallEngine)
      (Undisturbed smallEngine) (.created .segment) state →
      state.disk.Recovers smallEngine expected →
        state.disk.Restores smallEngine expected := fun run recovers =>
    recovers.restores (ServiceState.disk_reloads
      (ServiceState.reaches_reloads
        (run.mono fun _ _ undisturbed => undisturbed.1)))
  have opened : Reaches (ServiceStep smallEngine) (Undisturbed smallEngine)
      (.created .segment) ⟨.linked (.up openedEngine), [], 0⟩ := by
    apply (Reaches.start _).next (.durable (.reopen 1)) ?_
      (.silent (.reopen openedEngine_opens) [])
    exact ⟨fun _ _ _ _ => trivial, fun _ _ => ⟨trivial, trivial⟩⟩
  constructor
  · have put : Reaches (ServiceStep smallEngine) (Undisturbed smallEngine)
        (.created .segment) ⟨.linked (.up engineWithPut),
          [.acknowledged [("k", .bool true)]], 2⟩ := by
      apply opened.next (.durable (.run (.put "k" (.bool true)) 2 wholeFlush))
        ⟨fun phase same => ?_, fun phase same => ?_⟩ (.durable .run)
      · cases same
        exact openedEngine_put_reloads
      · cases same
        exact ⟨⟨by decide, put_admissible (.inl rfl)⟩, rfl⟩
    have filled : Reaches (ServiceStep smallEngine) (Undisturbed smallEngine)
        (.created .segment) ⟨.linked (.up filledEngine),
          [.acknowledged [("k", .bool true)], .acknowledged []], 3⟩ := by
      apply put.next (.durable (.run .flush 3 wholeFlush))
        ⟨fun phase same => ?_, fun phase same => ?_⟩ (.durable .run)
      · cases same
        rintro e ⟨⟩ - m flushed
        cases flushed
        exact engineWithPut_reloads
      · cases same
        exact ⟨⟨by decide, flush_admissible 3⟩, rfl⟩
    have cleared := filled.next .clear ⟨trivial, trivial⟩ (.clear rfl)
    exact ⟨_, cleared, rfl, _, restores cleared filledEngine_cleared, rfl⟩
  · have cleared : Reaches (ServiceStep smallEngine) (Undisturbed smallEngine)
        (.created .segment) ⟨.unlinked openedEngine.clear, [], 0⟩ :=
      opened.next .clear ⟨trivial, trivial⟩ (.clear rfl)
    have unlogged := cleared.next (.run (.put "k" (.bool true)) 2 wholeFlush)
      ⟨fun e same => ?_, by decide, rfl, fun e same => ?_⟩ .run
    · exact ⟨_, unlogged, rfl, restores unlogged unloggedEngine_recovers⟩
    · cases same
      rintro - m flushed
      rw [flushed?_put_of_new rfl 2] at flushed
      cases flushed
    · cases same
      exact put_admissible (.inl rfl)

end F4kvsLsm
