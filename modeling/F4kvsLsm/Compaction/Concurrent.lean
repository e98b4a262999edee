import F4kvsLsm.Lib.Runs
import F4kvsLsm.Compaction.Correct

/-!
# Compactions that overlap

Any number of calls of `compact_if_needed` and `compact_all` share one live
map while flushes push tables to level 0.  A call takes a snapshot, merges
without a lock and installs its result under the write lock, in one step.
Then it marks its inputs, waits for their readers and unlinks them, each
table in steps of its own.

Before its install a call may give up at any point: a lock times out, a file
cannot be read, or the load is too high.
-/

namespace F4kvsLsm

/-! ## One compaction -/

/-- What a compaction takes from the live map. -/
inductive CompactionJob where
  /-- `compact_if_needed`: the tables of one level.  The buckets of the
  selection are visited in the given order. -/
  | ifNeeded (level : Nat) (order : List Nat) (snapshot : List SSTable)
  /-- `compact_all`: the valid tables of levels 0 and 1. -/
  | all (inputs : List SSTable)

/-- The tables of a level that came after the snapshot and are not marked. -/
def concurrentUnmarked (marked : List SstableName)
    (files snapshot : List SSTable) : List SSTable :=
  (concurrentTables files snapshot).filter fun table => table.name ∉ marked

/-- `valid_sstables_for_compact` skips marked tables. -/
def validUnmarked (marked : List SstableName) (files : List SSTable) :
    List SSTable :=
  (validSstablesForCompact files).filter fun table => table.name ∉ marked

namespace CompactionJob

/-- The tables whose paths the job remembers. -/
def snapshot : CompactionJob → List SSTable
  | .ifNeeded _ _ snapshot => snapshot
  | .all inputs => inputs

/-- The tables that are merged. -/
def inputs (config : CompactionConfig) : CompactionJob → List SSTable
  | .ifNeeded level order snapshot =>
      selectSstablesForCompaction config order level snapshot
  | .all inputs => inputs

/-- The level of the new tables. -/
def target : CompactionJob → Nat
  | .ifNeeded level _ _ => level
  | .all _ => 1

/-- The tables that the merge writes. -/
def outputs (config : CompactionConfig) (output : OutputFiles)
    (job : CompactionJob) : List SSTable :=
  mergedTables config output job.target (job.inputs config)

/-- The live map after the install. -/
def install (config : CompactionConfig) (output : OutputFiles)
    (marked : List SstableName) (levels : Nat → List SSTable) :
    CompactionJob → Nat → List SSTable
  | .ifNeeded level order snapshot =>
      Function.update levels level
        (compactLevel config order output level snapshot ++
          concurrentUnmarked marked (levels level) snapshot)
  | .all inputs =>
      Function.update
        (Function.update levels 0
          (concurrentUnmarked marked (levels 0) inputs)) 1
        (sortLeveledSstables (mergedTables config output 1 inputs ++
          concurrentUnmarked marked (levels 1) inputs))

/-- `to_reclaim`: the tables of the snapshot that the level does not keep. -/
def toReclaim (config : CompactionConfig) (output : OutputFiles)
    (marked : List SstableName) (levels : Nat → List SSTable) :
    CompactionJob → List SSTable
  | .ifNeeded level order snapshot =>
      remainingTables snapshot
        (compactLevel config order output level snapshot ++
          concurrentUnmarked marked (levels level) snapshot)
  | .all inputs => inputs

end CompactionJob

/-- How far the reclaim of the first pending table has come. -/
inductive ReclaimStage where
  | waiting
  /-- `wait_for_readers` has seen no reader. -/
  | waited
  /-- `unlink_from_disk` has seen no reader either. -/
  | unlinking
  deriving DecidableEq, Repr

/-- How far a call has come. -/
inductive CompactionCall where
  | idle
  | flagged
  | chosen (level : Nat)
  | reading (job : CompactionJob) (pending : List SSTable)
  | compacted (job : CompactionJob) (output : OutputFiles)
  | marking (done pending : List SSTable)
  | reclaiming (stage : ReclaimStage) (pending : List SSTable)
  | returned

namespace CompactionCall

/-- Calls of `compact_if_needed` hold the flag `compacting` until their
install. -/
def holdsFlag : CompactionCall → Bool
  | .flagged => true
  | .chosen _ => true
  | .reading (.ifNeeded ..) _ => true
  | .compacted (.ifNeeded ..) _ => true
  | _ => false

/-- A call that may still give up. -/
def BeforeInstall : CompactionCall → Prop
  | .flagged => True
  | .chosen _ => True
  | .reading _ _ => True
  | .compacted _ _ => True
  | _ => False

def job : CompactionCall → Option CompactionJob
  | .reading job _ => some job
  | .compacted job _ => some job
  | _ => none

/-- The tables of the snapshot, while the call may still install it. -/
def snapshot (call : CompactionCall) : List SSTable :=
  match call.job with
  | some job => job.snapshot
  | none => []

/-- Tables that are written and not installed. -/
def outputs (config : CompactionConfig) : CompactionCall → List SSTable
  | .compacted job output => job.outputs config output
  | _ => []

/-- Tables that the call has taken out of the map to unlink them. -/
def reclaimed : CompactionCall → List SSTable
  | .marking done pending => done ++ pending
  | .reclaiming _ pending => pending
  | _ => []

end CompactionCall

/-! ## All calls -/

/-- The live map and the calls that work on it.  `drawn` are the file names
of flushes that have not pushed their table, `names` are the names of all
files ever written, `published` are the pushed tables in order. -/
structure CompactionState where
  levels : Nat → List SSTable
  compacting : Bool
  calls : Nat → CompactionCall
  marked : List SstableName
  unlinked : List SstableName
  sequenceNumber : Nat
  drawn : List Nat
  names : List SstableName
  published : List SSTable

inductive CompactionAction where
  | takeFlag (call : Nat)
  | skip (call : Nat)
  | choose (call : Nat) (order : List Nat)
  | snapshotLevel (call : Nat) (order selection : List Nat)
  | snapshotAll (call : Nat)
  | readInput (call : Nat)
  | merge (call : Nat) (output : OutputFiles)
  | install (call : Nat)
  | giveUp (call : Nat)
  | mark (call : Nat)
  | startReclaim (call : Nat)
  | waitForReaders (call : Nat)
  | checkReaders (call : Nat)
  | unlink (call : Nat)
  | leave (call : Nat)
  | finish (call : Nat)
  | draw (sequence : Nat)
  | push (table : SSTable)

namespace CompactionState

def setCall (state : CompactionState) (call : Nat) (phase : CompactionCall) :
    CompactionState :=
  { state with calls := Function.update state.calls call phase }

theorem setCall_self
    (state : CompactionState) (call : Nat) (phase : CompactionCall) :
    (state.setCall call phase).calls call = phase :=
  Function.update_self ..

theorem setCall_other
    (state : CompactionState) (phase : CompactionCall) {call other : Nat}
    (different : other ≠ call) :
    (state.setCall call phase).calls other = state.calls other :=
  Function.update_of_ne different ..

/-- `compacting` after `call` has let go of it. -/
def released (state : CompactionState) (call : Nat) : Bool :=
  state.compacting && !(state.calls call).holdsFlag

/-- The tables that `compact_all` merges. -/
def allInputs (state : CompactionState) : List SSTable :=
  validUnmarked state.marked (state.levels 0) ++
    validUnmarked state.marked (state.levels 1)

/-- `compact_all` returns when there is nothing to do. -/
def AllNeeded (config : CompactionConfig) (state : CompactionState) : Prop :=
  2 ≤ config.levelCount ∧ state.allInputs ≠ [] ∧
    (2 ≤ (validUnmarked state.marked (state.levels 0)).length ∨
      state.allInputs.any (!·.blockCompressed) = true)

def snapshotAll (state : CompactionState) (call : Nat) : CompactionState :=
  state.setCall call (.reading (.all state.allInputs) state.allInputs)

def snapshotLevel (config : CompactionConfig) (state : CompactionState)
    (call level : Nat) (selection : List Nat) : CompactionState :=
  state.setCall call
    (.reading (.ifNeeded level selection (state.levels level))
      (selectSstablesForCompaction config selection level
        (state.levels level)))

def merge (config : CompactionConfig) (state : CompactionState) (call : Nat)
    (job : CompactionJob) (output : OutputFiles) : CompactionState :=
  { state.setCall call (.compacted job output) with
    names := (job.outputs config output).map (·.name) ++ state.names }

def install (config : CompactionConfig) (state : CompactionState)
    (call : Nat) (job : CompactionJob) (output : OutputFiles) :
    CompactionState :=
  { state.setCall call (.marking []
      (job.toReclaim config output state.marked state.levels)) with
    levels := job.install config output state.marked state.levels
    compacting := state.released call }

theorem merge_self
    (config : CompactionConfig) (state : CompactionState) (call : Nat)
    (job : CompactionJob) (output : OutputFiles) :
    (state.merge config call job output).calls call =
      .compacted job output :=
  setCall_self ..

theorem merge_other
    {config : CompactionConfig} {state : CompactionState} {call : Nat}
    {job : CompactionJob} {output : OutputFiles}
    (other : Nat) (different : other ≠ call) :
    (state.merge config call job output).calls other = state.calls other :=
  setCall_other state _ different

theorem install_self
    (config : CompactionConfig) (state : CompactionState) (call : Nat)
    (job : CompactionJob) (output : OutputFiles) :
    (state.install config call job output).calls call =
      .marking [] (job.toReclaim config output state.marked state.levels) :=
  setCall_self ..

theorem install_other
    {config : CompactionConfig} {state : CompactionState} {call : Nat}
    {job : CompactionJob} {output : OutputFiles}
    (other : Nat) (different : other ≠ call) :
    (state.install config call job output).calls other = state.calls other :=
  setCall_other state _ different

def giveUp (state : CompactionState) (call : Nat) : CompactionState :=
  { state.setCall call .returned with compacting := state.released call }

def mark (state : CompactionState) (call : Nat) (done : List SSTable)
    (table : SSTable) (pending : List SSTable) : CompactionState :=
  { state.setCall call (.marking (done ++ [table]) pending) with
    marked := table.name :: state.marked }

def unlink (state : CompactionState) (call : Nat) (table : SSTable)
    (pending : List SSTable) : CompactionState :=
  { state.setCall call (.reclaiming .waiting pending) with
    unlinked := table.name :: state.unlinked }

def draw (state : CompactionState) (sequence : Nat) : CompactionState :=
  { state with
    sequenceNumber := sequence + 1
    drawn := sequence :: state.drawn }

def push (state : CompactionState) (sequence : Nat) (table : SSTable) :
    CompactionState :=
  { state with
    levels := LsmTree.publish state.levels table
    drawn := state.drawn.erase sequence
    names := table.name :: state.names
    published := state.published ++ [table] }

end CompactionState

/-- The steps of the calls.  A flush draws its file name from the sequence
numbers, skipping names that exist, and pushes its table later. -/
inductive CompactionStep (config : CompactionConfig) :
    CompactionState → CompactionAction → CompactionState → Prop
  | takeFlag {state : CompactionState} {call : Nat} :
      state.calls call = .idle → state.compacting = false →
      CompactionStep config state (.takeFlag call)
        { state.setCall call .flagged with compacting := true }
  | skip {state : CompactionState} {call : Nat} :
      state.calls call = .idle →
      CompactionStep config state (.skip call) (state.setCall call .returned)
  | choose {state : CompactionState} {call level : Nat} {order : List Nat} :
      state.calls call = .flagged →
      levelToCompact config order state.levels = some level →
      CompactionStep config state (.choose call order)
        (state.setCall call (.chosen level))
  | snapshotLevel {state : CompactionState} {call level : Nat}
      {order selection : List Nat} :
      state.calls call = .chosen level →
      shouldCompactLevel config order level (state.levels level) = true →
      CompactionStep config state (.snapshotLevel call order selection)
        (state.snapshotLevel config call level selection)
  | snapshotAll {state : CompactionState} {call : Nat} :
      state.calls call = .idle → state.AllNeeded config →
      CompactionStep config state (.snapshotAll call)
        (state.snapshotAll call)
  | readInput {state : CompactionState} {call : Nat} {job : CompactionJob}
      {table : SSTable} {pending : List SSTable} :
      state.calls call = .reading job (table :: pending) →
      table.name ∉ state.marked →
      CompactionStep config state (.readInput call)
        (state.setCall call (.reading job pending))
  | merge {state : CompactionState} {call : Nat} {job : CompactionJob}
      {output : OutputFiles} :
      state.calls call = .reading job [] →
      CompactionStep config state (.merge call output)
        (state.merge config call job output)
  | install {state : CompactionState} {call : Nat} {job : CompactionJob}
      {output : OutputFiles} :
      state.calls call = .compacted job output →
      CompactionStep config state (.install call)
        (state.install config call job output)
  | giveUp {state : CompactionState} {call : Nat} :
      (state.calls call).BeforeInstall →
      CompactionStep config state (.giveUp call) (state.giveUp call)
  | mark {state : CompactionState} {call : Nat} {done : List SSTable}
      {table : SSTable} {pending : List SSTable} :
      state.calls call = .marking done (table :: pending) →
      CompactionStep config state (.mark call)
        (state.mark call done table pending)
  | startReclaim {state : CompactionState} {call : Nat}
      {done : List SSTable} :
      state.calls call = .marking done [] →
      CompactionStep config state (.startReclaim call)
        (state.setCall call (.reclaiming .waiting done))
  | waitForReaders {state : CompactionState} {call : Nat} {table : SSTable}
      {pending : List SSTable} :
      state.calls call = .reclaiming .waiting (table :: pending) →
      CompactionStep config state (.waitForReaders call)
        (state.setCall call (.reclaiming .waited (table :: pending)))
  | checkReaders {state : CompactionState} {call : Nat} {table : SSTable}
      {pending : List SSTable} :
      state.calls call = .reclaiming .waited (table :: pending) →
      CompactionStep config state (.checkReaders call)
        (state.setCall call (.reclaiming .unlinking (table :: pending)))
  | unlink {state : CompactionState} {call : Nat} {table : SSTable}
      {pending : List SSTable} :
      state.calls call = .reclaiming .unlinking (table :: pending) →
      CompactionStep config state (.unlink call)
        (state.unlink call table pending)
  | leave {state : CompactionState} {call : Nat} {stage : ReclaimStage}
      {table : SSTable} {pending : List SSTable} :
      state.calls call = .reclaiming stage (table :: pending) →
      CompactionStep config state (.leave call)
        (state.setCall call (.reclaiming .waiting pending))
  | finish {state : CompactionState} {call : Nat} {stage : ReclaimStage} :
      state.calls call = .reclaiming stage [] →
      CompactionStep config state (.finish call)
        (state.setCall call .returned)
  | draw {state : CompactionState} {sequence : Nat} :
      state.sequenceNumber ≤ sequence →
      CompactionStep config state (.draw sequence) (state.draw sequence)
  | push {state : CompactionState} {sequence : Nat} {table : SSTable} :
      sequence ∈ state.drawn → table.name = .flush 0 sequence →
      table.WellFormed →
      CompactionStep config state (.push table) (state.push sequence table)

/-! ## Steps that leave the live map and the set of files as they are -/

/-- The call of an action that neither writes nor installs tables. -/
def CompactionAction.calmCall : CompactionAction → Option Nat
  | .takeFlag call => some call
  | .skip call => some call
  | .choose call _ => some call
  | .snapshotLevel call _ _ => some call
  | .snapshotAll call => some call
  | .readInput call => some call
  | .giveUp call => some call
  | .mark call => some call
  | .startReclaim call => some call
  | .waitForReaders call => some call
  | .checkReaders call => some call
  | .unlink call => some call
  | .leave call => some call
  | .finish call => some call
  | .merge _ _ => none
  | .install _ => none
  | .draw _ => none
  | .push _ => none

/-- The snapshot of a job is what the live map holds. -/
def CompactionJob.TakenFrom (state : CompactionState) :
    CompactionJob → Prop
  | .ifNeeded level _ snapshot => snapshot = state.levels level
  | .all inputs => inputs = state.allInputs

/-- What such a step may change. -/
structure CalmStep (config : CompactionConfig) (call : Nat)
    (state state' : CompactionState) : Prop where
  levels : state'.levels = state.levels
  names : state'.names = state.names
  drawn : state'.drawn = state.drawn
  sequenceNumber : state'.sequenceNumber = state.sequenceNumber
  published : state'.published = state.published
  others : ∀ other, other ≠ call → state'.calls other = state.calls other
  noOutputs : (state'.calls call).outputs config = []
  job : ∀ job, (state'.calls call).job = some job →
    (state.calls call).job = some job ∨ job.TakenFrom state
  reclaimed : ∀ table ∈ (state'.calls call).reclaimed,
    table ∈ (state.calls call).reclaimed
  marked : ∀ name ∈ state'.marked, name ∈ state.marked ∨
    ∃ table ∈ (state.calls call).reclaimed, table.name = name

theorem CalmStep.setCall
    {config : CompactionConfig} {state : CompactionState} {call : Nat}
    {phase : CompactionCall} (noOutputs : phase.outputs config = [])
    (job : ∀ job, phase.job = some job →
      (state.calls call).job = some job ∨ job.TakenFrom state)
    (reclaimed : ∀ table ∈ phase.reclaimed,
      table ∈ (state.calls call).reclaimed) :
    CalmStep config call state (state.setCall call phase) := by
  have own := state.setCall_self call phase
  constructor
  case levels => rfl
  case names => rfl
  case drawn => rfl
  case sequenceNumber => rfl
  case published => rfl
  case others => exact fun other => state.setCall_other phase
  case noOutputs => rw [own, noOutputs]
  case job => rw [own]; exact job
  case reclaimed => rw [own]; exact reclaimed
  case marked => exact fun name member => Or.inl member

theorem CalmStep.of_eq
    {config : CompactionConfig} {state middle state' : CompactionState}
    {call : Nat} (taken : CalmStep config call state middle)
    (levels : state'.levels = middle.levels)
    (names : state'.names = middle.names)
    (drawn : state'.drawn = middle.drawn)
    (sequenceNumber : state'.sequenceNumber = middle.sequenceNumber)
    (published : state'.published = middle.published)
    (calls : state'.calls = middle.calls)
    (marked : ∀ name ∈ state'.marked, name ∈ state.marked ∨
      ∃ table ∈ (state.calls call).reclaimed, table.name = name) :
    CalmStep config call state state' where
  levels := levels.trans taken.levels
  names := names.trans taken.names
  drawn := drawn.trans taken.drawn
  sequenceNumber := sequenceNumber.trans taken.sequenceNumber
  published := published.trans taken.published
  others := calls ▸ taken.others
  noOutputs := calls ▸ taken.noOutputs
  job := calls ▸ taken.job
  reclaimed := calls ▸ taken.reclaimed
  marked := marked

/-- All steps are calm but merges, installs and those of flushes. -/
theorem CompactionStep.calm
    {config : CompactionConfig} {state state' : CompactionState}
    {action : CompactionAction} {call : Nat}
    (calm : action.calmCall = some call)
    (taken : CompactionStep config state action state') :
    CalmStep config call state state' := by
  have noJob : ∀ job : CompactionJob, none = some job →
      (state.calls call).job = some job ∨ job.TakenFrom state :=
    fun job found => absurd found (by simp)
  have noTables : ∀ table : SSTable, table ∈ ([] : List SSTable) →
      table ∈ (state.calls call).reclaimed :=
    fun table member => absurd member List.not_mem_nil
  cases taken with
  | takeFlag phase free =>
      obtain rfl := Option.some.inj calm
      have moved : CalmStep config _ state (state.setCall _ .flagged) :=
        CalmStep.setCall rfl noJob noTables
      exact moved.of_eq rfl rfl rfl rfl rfl rfl moved.marked
  | skip phase =>
      obtain rfl := Option.some.inj calm
      exact CalmStep.setCall rfl noJob noTables
  | choose phase due =>
      obtain rfl := Option.some.inj calm
      exact CalmStep.setCall rfl noJob noTables
  | snapshotLevel phase due =>
      obtain rfl := Option.some.inj calm
      refine CalmStep.setCall rfl (fun job found => ?_) noTables
      obtain rfl := Option.some.inj found
      exact Or.inr rfl
  | snapshotAll phase needed =>
      obtain rfl := Option.some.inj calm
      refine CalmStep.setCall rfl (fun job found => ?_) noTables
      obtain rfl := Option.some.inj found
      exact Or.inr rfl
  | readInput phase unmarked =>
      obtain rfl := Option.some.inj calm
      refine CalmStep.setCall rfl (fun job found => ?_) noTables
      rw [phase]
      exact Or.inl found
  | merge phase => exact absurd calm (by simp [CompactionAction.calmCall])
  | install phase => exact absurd calm (by simp [CompactionAction.calmCall])
  | giveUp before =>
      obtain rfl := Option.some.inj calm
      have moved : CalmStep config _ state (state.setCall _ .returned) :=
        CalmStep.setCall rfl noJob noTables
      exact moved.of_eq rfl rfl rfl rfl rfl rfl moved.marked
  | @mark caller done table pending phase =>
      obtain rfl := Option.some.inj calm
      have moved : CalmStep config caller state
          (state.setCall caller (.marking (done ++ [table]) pending)) := by
        refine CalmStep.setCall rfl noJob fun other member => ?_
        rw [phase]
        simpa [CompactionCall.reclaimed] using member
      refine moved.of_eq rfl rfl rfl rfl rfl rfl fun name member => ?_
      rcases List.mem_cons.mp member with rfl | before
      · refine Or.inr ⟨table, ?_, rfl⟩
        rw [phase]
        exact List.mem_append_right _ (List.mem_cons_self ..)
      · exact Or.inl before
  | startReclaim phase =>
      obtain rfl := Option.some.inj calm
      refine CalmStep.setCall rfl noJob fun table member => ?_
      rw [phase]
      exact List.mem_append_left _ member
  | waitForReaders phase =>
      obtain rfl := Option.some.inj calm
      refine CalmStep.setCall rfl noJob fun table member => ?_
      rw [phase]
      exact member
  | checkReaders phase =>
      obtain rfl := Option.some.inj calm
      refine CalmStep.setCall rfl noJob fun table member => ?_
      rw [phase]
      exact member
  | @unlink caller _ pending phase =>
      obtain rfl := Option.some.inj calm
      have moved : CalmStep config caller state
          (state.setCall caller (.reclaiming .waiting pending)) := by
        refine CalmStep.setCall rfl noJob fun table member => ?_
        rw [phase]
        exact List.mem_cons_of_mem _ member
      exact moved.of_eq rfl rfl rfl rfl rfl rfl moved.marked
  | leave phase =>
      obtain rfl := Option.some.inj calm
      refine CalmStep.setCall rfl noJob fun table member => ?_
      rw [phase]
      exact List.mem_cons_of_mem _ member
  | finish phase =>
      obtain rfl := Option.some.inj calm
      exact CalmStep.setCall rfl noJob noTables
  | draw free => exact absurd calm (by simp [CompactionAction.calmCall])
  | push drawn name whole =>
      exact absurd calm (by simp [CompactionAction.calmCall])

/-! ## What a run starts from -/

/-- The clock gives the tables of a merge names that no file has had. -/
def FreshOutput (config : CompactionConfig) (state : CompactionState) :
    CompactionAction → Prop
  | .merge call output =>
      ∀ job, state.calls call = .reading job [] →
        ((job.outputs config output).map (·.name)).Nodup ∧
          ∀ table ∈ job.outputs config output, table.name ∉ state.names
  | _ => True

/-- No call is under way, and the live map holds files of its own that are
not marked. -/
structure CompactionState.AtRest (state : CompactionState) : Prop where
  calls : ∀ call, state.calls call = .idle ∨ state.calls call = .returned
  free : state.compacting = false
  placed : ∀ level, ∀ table ∈ state.levels level, table.name.level = level
  unique : ∀ level, ((state.levels level).map (·.name)).Nodup
  used : ∀ level, ∀ table ∈ state.levels level, table.name ∈ state.names
  unmarked : ∀ level, ∀ table ∈ state.levels level,
    table.name ∉ state.marked
  marked : ∀ name ∈ state.marked, name ∈ state.names
  unlinked : ∀ name ∈ state.unlinked, name ∈ state.marked
  drawn : state.drawn = []
  flushed : ∀ level sequence, .flush level sequence ∈ state.names →
    sequence < state.sequenceNumber

end F4kvsLsm
