import F4kvsLsm.Engine.DurableRuns

/-!
# Crashes without failures

When no flush fails no memtable is ever parked, and a start after a crash
reads every acknowledged write.  The records of a batch reach the log in one
write that a crash can cut anywhere, so of a batch in flight a start reads the
first items.
-/

namespace F4kvsLsm

open ByteCodec KeyedLog Transitions Versions

/-- Admitted steps whose flushes do not fail. -/
def Faultless (config : EngineConfig) (state : DurableState)
    (action : DurableAction) : Prop :=
  Admitted config state action ∧
    match action with
    | .run _ _ run => run.outcome = .done
    | .crashTruncating run _ => run.outcome = .done
    | _ => True

/-- An engine that is open has parked nothing. -/
def Unparked (state : DurableState) : Prop :=
  ∀ e, state.phase = .up e → e.tree.immutables = []

section

variable {config : EngineConfig} {e : OpenEngine}

theorem OpenEngine.runOp_immutables
    (op : EngineOp) (now : UInt64) {run : FlushRun}
    (done : run.outcome = .done) :
    (e.runOp config op now run).1.tree.immutables = e.tree.immutables := by
  let kept : LsmTree → Prop := fun tree =>
    tree.immutables = e.tree.immutables
  have flush : ∀ tree existing, kept tree →
      kept (tree.flushMemtableInternal existing run.info run.outcome).1 := by
    intro tree existing same
    exact (LsmTree.flushMemtableInternal_immutables done existing run.info
      tree).trans same
  have apply : ∀ tree call, op.call config now = some call → kept tree →
      kept (applyCall config tree call) := by
    intro tree call _ same
    rw [applyCall_eq]
    exact same
  exact runOp_tree kept flush apply rfl

theorem Faultless.careful
    {state : DurableState} {action : DurableAction}
    (faultless : Faultless config state action) (unparked : Unparked state) :
    Careful config state action := by
  refine ⟨faultless.1, fun e up => ?_⟩
  have redundant : e.ParkedRedundant config := by
    intro memtable member
    rw [unparked e up] at member
    exact absurd member List.not_mem_nil
  cases action with
  | run op now run => exact fun _ _ => redundant
  | crashTruncating run disk => exact fun _ _ => redundant
  | _ => trivial

theorem DurableStep.unparked
    {state state' : DurableState} {action : DurableAction}
    (sound : state.Sound config) (unparked : Unparked state)
    (faultless : Faultless config state action)
    (taken : DurableStep config state action state') : Unparked state' := by
  cases taken with
  | reopen opened =>
      obtain ⟨_, _, phase⟩ := sound
      obtain ⟨e, result, -, nothing, -⟩ := EngineDisk.Sound.opens phase _
      cases opened.symm.trans result
      rintro _ ⟨⟩
      exact nothing
  | @run e events clock now op run =>
      rintro _ ⟨⟩
      rw [OpenEngine.runOp_immutables op now faultless.2]
      exact unparked e rfl
  | crashReopening _ => exact fun e up => absurd up (by simp)
  | crash _ => exact fun e up => absurd up (by simp)
  | crashTruncating _ _ _ _ => exact fun e up => absurd up (by simp)
  | stop => exact fun e up => absurd up (by simp)

/-- A run without failures is a careful one. -/
theorem DurableState.faultless_sound
    {engine : WalEngine} {state : DurableState}
    (levels : 0 < config.tree.levelCount)
    (run : Reaches (DurableStep config) (Faultless config)
      (.created engine) state) : state.Sound config ∧ Unparked state := by
  apply run.invariant (fun state => state.Sound config ∧ Unparked state)
  · constructor
    · exact DurableState.created_sound engine
    · intro e up
      exact absurd up (by simp [DurableState.created])
  · intro before action after holds faultless taken
    obtain ⟨sound, unparked⟩ := holds
    exact ⟨taken.sound levels sound (faultless.careful unparked),
      taken.unparked sound unparked faultless⟩

/-- After any run without failures and a crash at any point a start reads the
acknowledged writes, and of each operation that was cut off some first
writes. -/
theorem crashes_lose_nothing_acknowledged
    {state : DurableState} (levels : 0 < config.tree.levelCount)
    (run : Reaches (DurableStep config) (Faultless config)
      (.created .segment) state) :
    ∃ expected, Outcome List.IsPrefix state.events expected ∧
      state.disk.Recovers config expected := by
  obtain ⟨sound, -⟩ := DurableState.faultless_sound levels run
  obtain ⟨expected, outcome, phase⟩ := sound
  exact ⟨expected, outcome, (DurableState.disk_sound phase).recovers levels⟩

end

/-! ## A torn batch -/

def twoItems : List (String × Value) :=
  [("a", .bool true), ("b", .bool true)]

/-- The log of a new engine. -/
def freshLog : FileWal :=
  FileWal.initializeWal .segment smallEngine.wal (.new []) 1

/-- The log directory after the first record of a batch. -/
def tornLog : List WalFile :=
  FileWal.updateFile freshLog.dir 1
    (· ++ (records (WalCall.batchWriteOperations twoItems 2).entries).take
      (frame (WALEntry.put "a" (.bool true) 2).encode).length)

def tornState : DurableState :=
  ⟨.down ⟨.segment tornLog, openedEngine.data⟩,
    [.unacknowledged twoItems], 2⟩

theorem openedEngine_reached :
    Reaches (DurableStep smallEngine) (Faultless smallEngine)
      (.created .segment) ⟨.up openedEngine, [], 0⟩ :=
  (Reaches.start _).next (.reopen 1) ⟨trivial, trivial⟩
    (.reopen openedEngine_opens)

theorem tornState_reached :
    Reaches (DurableStep smallEngine) (Faultless smallEngine)
      (.created .segment) tornState := by
  have fits : EngineOp.Admissible smallEngine .segment 2
      (.batchPut twoItems) := by
    refine ⟨fun call made => ?_, by simp⟩
    obtain rfl := Option.some.inj made
    intro item member
    rcases List.mem_pair.mp member with rfl | rfl
    · exact ⟨by decide, by decide, rfl⟩
    · exact ⟨by decide, by decide, rfl⟩
  have current : freshLog.current =
      some ⟨1, FileWal.newHeader smallEngine.wal 1⟩ := rfl
  have image : LogImage smallEngine.wal
      (WalCall.batchWriteOperations twoItems 2).entries freshLog tornLog :=
    .appended current
  exact openedEngine_reached.next (.crash (.batchPut twoItems) 2 _)
    ⟨⟨by decide, fits⟩, trivial⟩ (.crash (.logging rfl rfl image))

/-- What is left of the batch is applied. -/
theorem tornState_recovers :
    ∃ expected, Outcome List.IsPrefix tornState.events expected ∧
      tornState.disk.Recovers smallEngine expected :=
  crashes_lose_nothing_acknowledged (by decide) tornState_reached

/-- The first item of the batch is read and the second is not. -/
theorem batch_is_torn :
    ∃ state, Reaches (DurableStep smallEngine) (Faultless smallEngine)
        (.created .segment) state ∧
      ¬ ∃ expected, Outcome AllOrNothing state.events expected ∧
        state.disk.Recovers smallEngine expected := by
  refine ⟨tornState, tornState_reached, ?_⟩
  have opened : Reaches (DurableStep smallEngine) (Careful smallEngine)
      (.created .segment) ⟨.up openedEngine, [], 0⟩ :=
    (Reaches.start _).next (.reopen 1)
      ⟨trivial, fun e up => absurd up (by simp [DurableState.created])⟩
      (.reopen openedEngine_opens)
  obtain ⟨_, outcome, sound⟩ :=
    DurableState.reaches_sound (by decide) opened
  rw [outcome.of_nil] at sound
  have fits : WalHandle.Admissible smallEngine.wal .segment
      (.writeOperation "a" (.bool true) 2) := by
    intro entry member
    rw [List.mem_singleton.mp member]
    exact ⟨by decide, by decide, rfl⟩
  have made : (EngineOp.put "a" (.bool true)).call smallEngine 2 =
      some (.writeOperation "a" (.bool true) 2) := rfl
  obtain ⟨written, put, writtenSound⟩ :=
    OpenEngine.Sound.write sound made (by decide) fits
  have same : written.disk = tornState.disk := by
    cases put
    rfl
  have first := writtenSound.disk.recovers (by decide)
  rw [same] at first
  rintro ⟨expected, cutOff, recovers⟩
  have cutOff : Outcome AllOrNothing ([] ++ [.unacknowledged twoItems])
      expected := cutOff
  obtain ⟨before, part, nothing, allowed, applied⟩ :=
    cutOff.of_unacknowledged
  rw [nothing.of_nil, recovers.unique first] at applied
  rcases allowed with rfl | rfl
  · have read := congrArg Option.isSome (congrFun applied "a")
    exact absurd read (by decide)
  · have read := congrArg Option.isSome (congrFun applied "b")
    exact absurd read (by decide)

end F4kvsLsm
