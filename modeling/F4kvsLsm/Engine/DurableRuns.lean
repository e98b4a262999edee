import F4kvsLsm.Engine.DurableTables

/-!
# Failed flushes and crashes

Whatever an operation leaves behind when it is cut off, a start reads every
acknowledged write and, of the operation in flight, some first writes.  This
needs one thing of the code that it does not check itself: a flush that
truncates the log must not have to count on a memtable that an earlier flush
has failed to write.
-/

namespace F4kvsLsm

open KeyedLog Transitions Versions

section

variable {config : EngineConfig} {disk disk' : EngineDisk} {e : OpenEngine}
variable {expected : String → Option Value} {clock now : UInt64}

/-! ## What a crash leaves -/

theorem FlushImage.sound
    {info : TableInfo} {data : DataDir} (image : FlushImage e info data)
    (sound : e.Sound config expected clock) :
    EngineDisk.Sound config ⟨e.wal.disk, data⟩ expected clock := by
  cases image with
  | before => exact sound.disk
  | writing =>
      exact sound.disk.of_recovered sound.disk.onDisk rfl rfl
  | complete nonempty => exact sound.tableWritten nonempty info _
  | persisted nonempty => exact sound.tableWritten nonempty info _

/-- A truncation that is cut off before or after its removal loop. -/
theorem TruncationImage.sound
    {m : FileWal} {dir : List WalFile}
    (image : TruncationImage config.wal m dir)
    (sound : e.Sound config expected clock) (segment : e.wal = .segment m)
    (hold : ∀ key, getFromSstables config.tree.levelCount
      (loadLevel e.data.tables) key = expected key) :
    EngineDisk.Sound config ⟨.segment dir, e.data⟩ expected clock := by
  have empty : FileWal.OnDisk .segment [] := FileWal.onDisk_nil
  cases image with
  | closed =>
      have ready := sound.ready
      rw [segment] at ready
      have grows : FileWal.Grows .segment config.wal m _ [] :=
        FileWal.flush_grows ready
      refine sound.disk.of_recovered grows.ready.onDisk ?_ rfl
      have same := grows.recovered
      rw [List.append_nil] at same
      simp only [OpenEngine.disk, segment]
      exact same
  | removed => exact .of_tables empty rfl sound.disk.data hold
  | @created now cut =>
      have above : ∀ file ∈ ([] : List WalFile), file.id < m.counter :=
        fun file member => absurd member List.not_mem_nil
      have survives : FileWal.Survives .segment config.wal [] _ :=
        FileWal.created_survives empty above now cut
      exact .of_tables survives.onDisk survives.recovered sound.disk.data
        hold

theorem LogImage.sound
    {op : EngineOp} {call : WalCall} {m : FileWal} {dir : List WalFile}
    (image : LogImage config.wal call.entries m dir)
    (sound : e.Sound config expected clock) (segment : e.wal = .segment m)
    (made : op.call config now = some call) (later : clock ≤ now)
    (admissible : WalHandle.Admissible config.wal .segment call) :
    ∃ front, front <+: op.writes ∧
      EngineDisk.Sound config ⟨.segment dir, e.data⟩
        (applyWrites expected front) now := by
  have ready := sound.ready
  rw [segment] at ready
  have admitted : WalHandle.Admissible config.wal
      FileEngine.segment.walEngine call := admissible
  have holds := image.holdsPrefix ready admitted.storable
  obtain ⟨front, isPrefix, read⟩ := holds.recovered
  obtain ⟨writes, facts⟩ := EngineOp.call_entries made
  have logged : (WalDisk.segment dir).recovered config.wal =
      e.disk.log.recovered config.wal ++ front := by
    simp only [OpenEngine.disk, segment]
    exact read
  have onDisk : (WalDisk.segment dir).OnDisk config.wal := holds.onDisk
  refine ⟨writesOf front, ?_, ?_⟩
  · rw [← writes]
    exact isPrefix.filterMap _
  · exact sound.disk.append onDisk logged sound.disk.data rfl later
      (fun entry member => (facts entry (isPrefix.subset member)).1)
      (fun entry member => (facts entry (isPrefix.subset member)).2)

theorem CrashImage.sound
    {op : EngineOp} (image : CrashImage config now e op disk)
    (sound : e.Sound config expected clock) (later : clock ≤ now)
    (admissible : op.Admissible config e.wal.disk.engine now) :
    ∃ front, front <+: op.writes ∧
      disk.Sound config (applyWrites expected front) now := by
  cases image with
  | before =>
      exact ⟨[], List.nil_prefix, sound.disk.mono later⟩
  | logging made segment logImage =>
      have admissibleCall := admissible.1 _ made
      rw [segment] at admissibleCall
      exact logImage.sound sound segment made later admissibleCall
  | logged made done =>
      obtain ⟨written, result, writtenSound⟩ :=
        sound.write made later (admissible.1 _ made)
      cases done.symm.trans result
      exact ⟨op.writes, List.prefix_rfl, writtenSound.disk⟩
  | filled made done _ flushImage =>
      obtain ⟨written, result, writtenSound⟩ :=
        sound.write made later (admissible.1 _ made)
      cases done.symm.trans result
      exact ⟨op.writes, List.prefix_rfl, flushImage.sound writtenSound⟩
  | forced flushImage =>
      exact ⟨[], List.nil_prefix, (flushImage.sound sound).mono later⟩
  | flushing done flushImage =>
      obtain ⟨wal, result, grows⟩ := WalHandle.flush_grows sound.ready
      cases done.symm.trans result
      have synced := sound.withWal grows
      exact ⟨[], List.nil_prefix, (flushImage.sound synced).mono later⟩

theorem OpenImage.sound
    (image : OpenImage config disk disk')
    (sound : disk.Sound config expected clock) :
    disk'.Sound config expected clock := by
  cases image with
  | @creating dir data now cut =>
      have same := WalDisk.created_sameLog sound.onDisk now cut
      exact sound.of_recovered same.onDisk same.recovered rfl
  | initialized opened =>
      have same := WalDisk.opened_sameLog sound.onDisk opened
      exact sound.of_recovered same.onDisk same.recovered rfl

/-! ## What a run keeps -/

def EnginePhase.Sound (config : EngineConfig) (phase : EnginePhase)
    (expected : String → Option Value) (clock : UInt64) : Prop :=
  match phase with
  | .down disk => disk.Sound config expected clock
  | .up e => e.Sound config expected clock

def DurableState.Sound (config : EngineConfig) (state : DurableState) :
    Prop :=
  ∃ expected, Outcome List.IsPrefix state.events expected ∧
    state.phase.Sound config expected state.clock

theorem DurableState.disk_sound
    {state : DurableState}
    (sound : state.phase.Sound config expected clock) :
    state.disk.Sound config expected clock := by
  rw [DurableState.disk]
  cases at' : state.phase with
  | down disk =>
      rw [at'] at sound
      exact sound
  | up e =>
      rw [at'] at sound
      exact OpenEngine.Sound.disk sound

/-- Admitted steps that never truncate a log that is still needed. -/
def Careful (config : EngineConfig) (state : DurableState)
    (action : DurableAction) : Prop :=
  Admitted config state action ∧
    ∀ e, state.phase = .up e →
      match action with
      | .run op _ run => e.SafeToTruncate config op run
      | .crashTruncating run _ => e.SafeToTruncate config .flush run
      | _ => True

theorem getFromSstables_of_nil (levelCount : Nat) (key : String) :
    getFromSstables levelCount (fun _ => []) key = none := by
  have nothing : (List.range levelCount).findSome?
      (fun level => getFromLevel level [] key) = none := by
    rw [List.findSome?_eq_none_iff]
    intro level _
    cases level <;> rfl
  rw [getFromSstables, nothing, Option.bind_none]

theorem getFromSstables_loadLevel_nil (levelCount : Nat) (key : String) :
    getFromSstables levelCount (loadLevel []) key = none := by
  have nothing : loadLevel [] = fun _ => [] := by
    funext level
    cases level <;> rfl
  rw [nothing, getFromSstables_of_nil]

theorem DurableState.created_sound (engine : WalEngine) :
    (DurableState.created engine).Sound config := by
  refine ⟨fun _ => none, .start, ?_⟩
  refine .of_tables (WalDisk.empty_onDisk _ engine)
    (WalDisk.empty_recovered _ engine) ?_ ?_
  · constructor
    case wellFormed => exact fun table member => absurd member (by simp)
    case names => exact List.nodup_nil
    case flushed => exact fun table member => absurd member (by simp)
    case distinct => exact fun entry member => absurd member (by simp)
  · intro key
    exact getFromSstables_loadLevel_nil _ key

/-- One careful step: what it adds to the events accounts for what it does
to the disk. -/
theorem DurableStep.keeps
    {state state' : DurableState} {action : DurableAction}
    (levels : 0 < config.tree.levelCount)
    (phase : state.phase.Sound config expected state.clock)
    (careful : Careful config state action)
    (taken : DurableStep config state action state') :
    ∃ added expected', state'.events = state.events ++ added ∧
      (∀ events, Outcome List.IsPrefix events expected →
        Outcome List.IsPrefix (events ++ added) expected') ∧
      state'.phase.Sound config expected' state'.clock := by
  obtain ⟨admitted, safe⟩ := careful
  have nothing : ∀ events, Outcome List.IsPrefix events expected →
      Outcome List.IsPrefix (events ++ []) expected := by
    intro events outcome
    rw [List.append_nil]
    exact outcome
  cases taken with
  | reopen opened =>
      obtain ⟨e, result, -, -, openSound⟩ :=
        EngineDisk.Sound.opens phase _
      cases opened.symm.trans result
      exact ⟨[], expected, (List.append_nil _).symm, nothing, openSound⟩
  | crashReopening image =>
      exact ⟨[], expected, (List.append_nil _).symm, nothing,
        image.sound phase⟩
  | @run e events clock now op run =>
      obtain ⟨front, isPrefix, whole, runSound⟩ :=
        OpenEngine.Sound.runOp phase levels admitted.1 admitted.2
          (safe e rfl)
      refine ⟨_, applyWrites expected front, rfl, ?_, runSound⟩
      intro events outcome
      cases done : (e.runOp config op now run).2 with
      | true =>
          rw [whole done]
          exact .acknowledged outcome
      | false => exact .unacknowledged outcome isPrefix
  | crash image =>
      obtain ⟨front, isPrefix, diskSound⟩ :=
        image.sound phase admitted.1 admitted.2
      exact ⟨_, applyWrites expected front, rfl,
        fun events outcome => .unacknowledged outcome isPrefix, diskSound⟩
  | @crashTruncating e flushed events clock wal run m dir walFlush done
      segment image =>
      obtain ⟨wal', result, grows⟩ :=
        WalHandle.flush_grows (OpenEngine.Sound.ready phase)
      cases walFlush.symm.trans result
      have synced := OpenEngine.Sound.withWal phase grows
      have flushedSound := synced.flushMemtable run
      have succeeded : (e.flushMemtable run).2 = true :=
        congrArg Prod.snd done
      have redundant := (safe e rfl (Or.inl rfl) succeeded).withWal grows
      have hold := synced.tables_hold levels succeeded redundant
      have same : (OpenEngine.flushMemtable ⟨wal, e.tree, e.data⟩ run).1 =
        flushed := congrArg Prod.fst done
      rw [same] at flushedSound
      have data : flushed.data = OpenEngine.dataAfterFlush
          ⟨wal, e.tree, e.data⟩ run := by
        rw [← same]
        rfl
      rw [← data] at hold
      exact ⟨_, expected, rfl,
        fun events outcome => .unacknowledged outcome List.prefix_rfl,
        image.sound flushedSound segment hold⟩
  | stop =>
      exact ⟨[], expected, (List.append_nil _).symm, nothing,
        OpenEngine.Sound.disk phase⟩

theorem DurableStep.sound
    {state state' : DurableState} {action : DurableAction}
    (levels : 0 < config.tree.levelCount) (sound : state.Sound config)
    (careful : Careful config state action)
    (taken : DurableStep config state action state') :
    state'.Sound config := by
  obtain ⟨expected, outcome, phase⟩ := sound
  obtain ⟨added, expected', events, follows, kept⟩ :=
    taken.keeps levels phase careful
  refine ⟨expected', ?_, kept⟩
  rw [events]
  exact follows state.events outcome

theorem DurableState.reaches_sound
    {engine : WalEngine} {state : DurableState}
    (levels : 0 < config.tree.levelCount)
    (run : Reaches (DurableStep config) (Careful config)
      (DurableState.created engine) state) : state.Sound config :=
  run.invariant (DurableState.Sound config)
    (DurableState.created_sound engine)
    fun _ _ _ sound careful taken => taken.sound levels sound careful

/-! ## Failed flushes -/

theorem Outcome.of_nil
    {applied : List (String × Value) → List (String × Value) → Prop}
    (outcome : Outcome applied [] expected) : expected = fun _ => none := by
  generalize same : ([] : List EngineEvent) = events at outcome
  cases outcome with
  | start => rfl
  | acknowledged _ => exact absurd same (by simp)
  | unacknowledged _ _ => exact absurd same (by simp)

theorem Outcome.of_append
    {applied : List (String × Value) → List (String × Value) → Prop}
    {events : List EngineEvent} {event : EngineEvent}
    (outcome : Outcome applied (events ++ [event]) expected) :
    ∃ before part, Outcome applied events before ∧
      expected = applyWrites before part ∧
      (event = .acknowledged part ∨
        ∃ writes, event = .unacknowledged writes ∧ applied part writes) := by
  generalize same : events ++ [event] = all at outcome
  cases outcome with
  | start => exact absurd same (by simp)
  | acknowledged before =>
      obtain ⟨rfl, last⟩ := List.append_inj' same rfl
      obtain rfl := List.singleton_inj.mp last
      exact ⟨_, _, before, rfl, Or.inl rfl⟩
  | unacknowledged before allowed =>
      obtain ⟨rfl, last⟩ := List.append_inj' same rfl
      obtain rfl := List.singleton_inj.mp last
      exact ⟨_, _, before, rfl, Or.inr ⟨_, rfl, allowed⟩⟩

theorem Outcome.of_acknowledged
    {applied : List (String × Value) → List (String × Value) → Prop}
    {events : List EngineEvent} {writes : List (String × Value)}
    (outcome : Outcome applied (events ++ [.acknowledged writes]) expected) :
    ∃ before, Outcome applied events before ∧
      expected = applyWrites before writes := by
  obtain ⟨before, part, earlier, written, same | ⟨_, other, _⟩⟩ :=
    outcome.of_append
  · cases same
    exact ⟨before, earlier, written⟩
  · exact absurd other (by simp)

theorem Outcome.of_unacknowledged
    {applied : List (String × Value) → List (String × Value) → Prop}
    {events : List EngineEvent} {writes : List (String × Value)}
    (outcome : Outcome applied (events ++ [.unacknowledged writes])
      expected) :
    ∃ before part, Outcome applied events before ∧ applied part writes ∧
      expected = applyWrites before part := by
  obtain ⟨before, part, earlier, written, other | ⟨_, same, allowed⟩⟩ :=
    outcome.of_append
  · exact absurd other (by simp)
  · cases same
    exact ⟨before, part, earlier, allowed, written⟩

/-- What a start reads is determined by the disk. -/
theorem EngineDisk.Recovers.unique
    {expected' : String → Option Value}
    (recovers : disk.Recovers config expected)
    (recovers' : disk.Recovers config expected') : expected = expected' := by
  obtain ⟨e, opened, reads⟩ := recovers 0
  obtain ⟨e', opened', reads'⟩ := recovers' 0
  cases opened.symm.trans opened'
  exact funext fun key => (reads key).symm.trans (reads' key)

/-- A parked memtable that the tables do not make up for is lost by the next
flush that succeeds. -/
theorem OpenEngine.Sound.flush_recovers_iff
    (sound : e.Sound config expected clock)
    (levels : 0 < config.tree.levelCount) (now : UInt64) {run : FlushRun}
    (done : (e.flushMemtable run).2 = true) :
    (e.flush config now run).1.disk.Recovers config expected ↔
      e.ParkedRedundant config := by
  constructor
  · intro recovers memtable member key found notHere
    obtain ⟨wal, synced, grows⟩ := WalHandle.flush_grows sound.ready
    have emptied : WalHandle.Emptied config.wal wal _ :=
      WalHandle.truncateAfterFlush_emptied wal now
    have left : EngineDisk.Recovers config
        ⟨(wal.truncateAfterFlush config.wal now).disk,
          e.dataAfterFlush run⟩
        (getFromSstables config.tree.levelCount
          (loadLevel (e.dataAfterFlush run).tables)) := by
      have held : EngineDisk.Sound config
          ⟨(wal.truncateAfterFlush config.wal now).disk,
            e.dataAfterFlush run⟩ _ now :=
        .of_tables emptied.ready.onDisk emptied.recovered
          (sound.flushMemtable run).disk.data fun _ => rfl
      exact held.recovers levels
    rw [OpenEngine.flush_done synced now done] at recovers
    have reads := congrFun (left.unique recovers) key
    rw [sound.getFromSstables_dataAfterFlush run notHere] at reads
    exact reads.trans (sound.disk.held key).symm
  · intro redundant
    have safe : e.SafeToTruncate config .flush run := fun _ _ => redundant
    exact (sound.flush levels now safe).disk.recovers levels

/-- Careful steps whose flushes write tables that come back. -/
def Preserving (config : EngineConfig) (state : DurableState)
    (action : DurableAction) : Prop :=
  Careful config state action ∧ FlushesReload config state action

theorem DurableState.reaches_reloads
    {engine : WalEngine} {state : DurableState}
    (run : Reaches (DurableStep config) (FlushesReload config)
      (DurableState.created engine) state) : state.phase.Reloads :=
  run.invariant (fun state => state.phase.Reloads)
    (fun _ member => absurd member List.not_mem_nil)
    fun _ _ _ reloads flushes taken => taken.reloads reloads flushes

/-- When no flush truncates the log on account of a parked memtable and every
table that is written opens again, the log and the tables hold every
acknowledged write in every state of a run. -/
theorem failed_flushes_keep_the_log
    {engine : WalEngine} {state : DurableState}
    (levels : 0 < config.tree.levelCount)
    (run : Reaches (DurableStep config) (Preserving config)
      (.created engine) state) :
    ∃ expected, Outcome List.IsPrefix state.events expected ∧
      (∀ key, lastWrite
          (writesOf (state.disk.log.recovered config.wal)) key = none →
        getFromSstablesLogged .records config.tree.levelCount
          (loadLevel state.disk.data.tables) key = expected key) ∧
      state.disk.Restores config expected := by
  obtain ⟨expected, outcome, phase⟩ := DurableState.reaches_sound levels
    (run.mono fun _ _ preserving => preserving.1)
  have reloads := DurableState.disk_reloads (DurableState.reaches_reloads
    (run.mono fun _ _ preserving => preserving.2))
  have disk := DurableState.disk_sound phase
  refine ⟨expected, outcome, ?_, (disk.recovers levels).restores reloads⟩
  intro key unlogged
  rw [getFromSstablesLogged_records fun level table member =>
    (reloads.loadLevel level table member).readsBack]
  exact (acknowledged_of_none unlogged).symm.trans (disk.held key)

end

/-- Small segments and a large memtable. -/
def smallEngine : EngineConfig :=
  { wal := WalHandle.smallConfig
    allowRecoveryFailure := false
    tree := leveledConfig
    maxSize := 1048576
    maxBatchSize := 1000 }

def failedFlush : FlushRun := ⟨smallTable, .failedWriting, false⟩

def wholeFlush : FlushRun := ⟨smallTable, .done, false⟩

/-- An engine on an empty directory. -/
def openedEngine : OpenEngine :=
  ⟨.segment (FileWal.initializeWal .segment smallEngine.wal (.new []) 1),
    ⟨.new, [], loadLevel [], 1⟩, ⟨[], [], 1⟩⟩

theorem openedEngine_opens :
    EngineDisk.openEngine smallEngine ⟨.empty .segment, ⟨[], [], 0⟩⟩ 1 =
      .ok openedEngine := rfl

/-- The engine behind a put and a flush that fails. -/
def parkedEngine : OpenEngine :=
  let written := (openedEngine.runOp smallEngine (.put "k" (.bool true)) 2
    wholeFlush).1
  (written.runOp smallEngine .flush 3 failedFlush).1

def parkedState : DurableState :=
  ⟨.up parkedEngine,
    [.acknowledged [("k", .bool true)], .unacknowledged []], 3⟩

/-- A put alone does not fill the memtable. -/
theorem flushed?_put_of_new {e : OpenEngine} (empty : e.tree.active = .new)
    (now : UInt64) :
    e.flushed? smallEngine (.put "k" (.bool true)) now = none := by
  obtain ⟨wal, ⟨active, immutables, levels, sequence⟩, data⟩ := e
  subst empty
  rfl

theorem openedEngine_put_reloads {events : List EngineEvent}
    {clock : UInt64} :
    FlushesReload smallEngine ⟨.up openedEngine, events, clock⟩
      (.run (.put "k" (.bool true)) 2 wholeFlush) := by
  rintro e ⟨⟩ - m flushed
  rw [flushed?_put_of_new rfl 2] at flushed
  cases flushed

theorem parkedState_reached :
    Reaches (DurableStep smallEngine) (Preserving smallEngine)
      (.created .segment) parkedState := by
  have opened : Reaches (DurableStep smallEngine) (Preserving smallEngine)
      (.created .segment) ⟨.up openedEngine, [], 0⟩ :=
    (Reaches.start _).next (.reopen 1)
      ⟨⟨trivial, fun e up => absurd up (by simp [DurableState.created])⟩,
        fun _ _ => trivial⟩
      (.reopen openedEngine_opens)
  have put : EngineOp.Admissible smallEngine .segment 2
      (.put "k" (.bool true)) := by
    refine ⟨fun call made => ?_, by simp⟩
    obtain rfl := Option.some.inj made
    intro entry member
    rw [List.mem_singleton.mp member]
    exact ⟨by decide, by decide, rfl⟩
  have flush : EngineOp.Admissible smallEngine .segment 3 .flush :=
    ⟨fun call made => absurd made (by simp [EngineOp.call]), by simp⟩
  refine (opened.next (.run (.put "k" (.bool true)) 2 wholeFlush)
    ⟨⟨⟨by decide, put⟩, ?_⟩, openedEngine_put_reloads⟩ .run).next
    (.run .flush 3 failedFlush) ⟨⟨⟨by decide, flush⟩, ?_⟩, ?_⟩ .run
  · rintro e - (isFlush | isShutdown)
    · exact absurd isFlush (by simp)
    · exact absurd isShutdown (by simp)
  · rintro e up - done
    cases up
    exact absurd done (by decide)
  · exact fun _ _ written => absurd rfl written

/-- The parked put is still in the log. -/
theorem parkedState_recovers :
    ∃ expected, Outcome List.IsPrefix parkedState.events expected ∧
      (∀ key, lastWrite (writesOf
          (parkedState.disk.log.recovered smallEngine.wal)) key = none →
        getFromSstablesLogged .records smallEngine.tree.levelCount
          (loadLevel parkedState.disk.data.tables) key = expected key) ∧
      parkedState.disk.Restores smallEngine expected :=
  failed_flushes_keep_the_log (by decide) parkedState_reached

/-- The next flush succeeds, removes the record of the parked put from the
log, and has written no table. -/
theorem flush_loses_parked_put :
    ∃ state, Reaches (DurableStep smallEngine)
        (fun state action => Admitted smallEngine state action ∧
          FlushesReload smallEngine state action)
        (.created .segment) state ∧
      ¬ ∃ expected, Outcome List.IsPrefix state.events expected ∧
        state.disk.Restores smallEngine expected := by
  have parked := parkedState_reached.mono fun _ _ preserving =>
    (⟨preserving.1.1, preserving.2⟩ :
      Admitted smallEngine _ _ ∧ FlushesReload smallEngine _ _)
  have admissible : EngineOp.Admissible smallEngine .segment 4 .flush :=
    ⟨fun call made => absurd made (by simp [EngineOp.call]), by simp⟩
  have reloads : FlushesReload smallEngine parkedState
      (.run .flush 4 wholeFlush) := by
    rintro e ⟨⟩ - m flushed
    cases flushed
    exact Memtable.new_reloads
  refine ⟨_, parked.next (.run .flush 4 wholeFlush)
    ⟨⟨by decide, admissible⟩, reloads⟩ .run, ?_⟩
  obtain ⟨_, -, sound⟩ := DurableState.reaches_sound (by decide)
    (parkedState_reached.mono fun _ _ preserving => preserving.1)
  obtain ⟨wal, synced, -⟩ :=
    WalHandle.flush_grows (OpenEngine.Sound.ready sound)
  have done : parkedEngine.runOp smallEngine .flush 4 wholeFlush = _ :=
    OpenEngine.flush_done synced 4 rfl
  have emptied : WalHandle.Emptied smallEngine.wal wal _ :=
    WalHandle.truncateAfterFlush_emptied wal 4
  have nothing : EngineDisk.Recovers smallEngine
      (parkedEngine.runOp smallEngine .flush 4 wholeFlush).1.disk
      (fun _ => none) := by
    rw [done]
    have held : EngineDisk.Sound smallEngine
        ⟨(wal.truncateAfterFlush smallEngine.wal 4).disk,
          parkedEngine.dataAfterFlush wholeFlush⟩ (fun _ => none) 4 :=
      .of_tables emptied.ready.onDisk emptied.recovered
        (OpenEngine.Sound.flushMemtable sound wholeFlush).disk.data
        fun key => getFromSstables_loadLevel_nil 7 key
    exact held.recovers (by decide)
  rintro ⟨expected, outcome, restores⟩
  obtain rfl := nothing.unique restores.recovers
  rw [done] at outcome
  obtain ⟨afterFailure, failure, kept⟩ := outcome.of_acknowledged
  have failure : Outcome List.IsPrefix
      ([.acknowledged [("k", .bool true)]] ++ [.unacknowledged []])
      afterFailure := failure
  obtain ⟨afterPut, part, put, isPrefix, failed⟩ := failure.of_unacknowledged
  have put : Outcome List.IsPrefix
      ([] ++ [.acknowledged [("k", .bool true)]]) afterPut := put
  obtain ⟨first, none, written⟩ := put.of_acknowledged
  rw [List.prefix_nil.mp isPrefix] at failed
  rw [failed, written, none.of_nil] at kept
  exact absurd (congrFun kept "k") (by decide)

end F4kvsLsm
