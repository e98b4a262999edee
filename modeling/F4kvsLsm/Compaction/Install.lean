import F4kvsLsm.Compaction.LiveMap

/-!
# One compaction among flushes

Whatever flushes push between the snapshot of a compaction and its install,
the install leaves exactly the outputs, the tables of the snapshot that were
not merged and the pushed tables, and reclaims exactly the merged ones.
-/

namespace F4kvsLsm

open Transitions

/-- The call that takes a step; flushes belong to none. -/
def CompactionAction.caller : CompactionAction → Option Nat
  | .draw _ => none
  | .push _ => none
  | .merge call _ => some call
  | .install call => some call
  | action => action.calmCall

/-- Steps of one call and of flushes. -/
def OneCall (config : CompactionConfig) (call : Nat)
    (state : CompactionState) (action : CompactionAction) : Prop :=
  FreshOutput config state action ∧
    ∀ caller, action.caller = some caller → caller = call

def CompactionAction.TakesSnapshot (call : Nat) : CompactionAction → Prop
  | .snapshotLevel caller _ _ => caller = call
  | .snapshotAll caller => caller = call
  | _ => False

theorem CompactionAction.TakesSnapshot.oneCall
    {action : CompactionAction} {call : Nat}
    (takes : action.TakesSnapshot call) (config : CompactionConfig)
    (state : CompactionState) : OneCall config call state action := by
  cases action with
  | snapshotLevel caller order selection =>
      obtain rfl := takes
      exact ⟨True.intro, fun other same => (Option.some.inj same).symm⟩
  | snapshotAll caller =>
      obtain rfl := takes
      exact ⟨True.intro, fun other same => (Option.some.inj same).symm⟩
  | _ => exact takes.elim

def CompactionCall.Early : CompactionCall → Prop
  | .idle => True
  | .flagged => True
  | .chosen _ => True
  | .reading _ _ => True
  | .compacted _ _ => True
  | _ => False

/-- The new tables of a level. -/
def CompactionJob.outputsAt (config : CompactionConfig)
    (output : OutputFiles) (job : CompactionJob) (level : Nat) :
    List SSTable :=
  if level = job.target then job.outputs config output else []

/-- Flushes push to level 0. -/
def pushedAt (level : Nat) (pushed : List SSTable) : List SSTable :=
  if level = 0 then pushed else []

/-! ## Tables that stay -/

theorem remainingTables_of_apart
    {files group : List SSTable}
    (apart : ∀ table ∈ files, ∀ other ∈ group, other.name ≠ table.name) :
    remainingTables files group = files :=
  List.filter_eq_self.mpr fun table member => by
    simpa using apart table member

theorem remainingTables_append_left
    (front back group : List SSTable) :
    remainingTables (front ++ back) group =
      remainingTables front group ++ remainingTables back group :=
  List.filter_append ..

theorem concurrentUnmarked_eq
    {marked : List SstableName} {files snapshot : List SSTable}
    (unmarked : ∀ table ∈ files, table.name ∉ marked) :
    concurrentUnmarked marked files snapshot =
      remainingTables files snapshot := by
  refine List.filter_eq_self.mpr fun table member => ?_
  rw [decide_eq_true_eq]
  exact unmarked table (mem_remainingTables.mp member).1

theorem CompactionJob.touches_target (job : CompactionJob) :
    job.Touches job.target := by
  cases job with
  | ifNeeded level order snapshot => exact rfl
  | all inputs => exact Or.inr rfl

theorem CompactionJob.inputs_nodup
    (config : CompactionConfig) {job : CompactionJob}
    (placed : job.Placed) :
    ((job.inputs config).map (·.name)).Nodup := by
  cases job with
  | ifNeeded level order snapshot =>
      exact ((selected_sublist config order level snapshot).map _).nodup
        placed.unique
  | all inputs => exact placed.unique

namespace CompactionState

variable {config : CompactionConfig} {state state' : CompactionState}
variable {call : Nat}

theorem Named.eq_of_name_eq
    (named : state.Named config) {level level' : Nat}
    {table table' : SSTable} (member : table ∈ state.levels level)
    (member' : table' ∈ state.levels level')
    (same : table.name = table'.name) : table = table' := by
  have sameLevel : level = level' := by
    rw [← named.placed level table member, same]
    exact named.placed level' table' member'
  subst sameLevel
  exact List.inj_on_of_nodup_map (named.unique level) member member' same

/-! ## Until the install -/

/-- A call does not go back behind its install. -/
theorem early_before
    {action : CompactionAction}
    (taken : CompactionStep config state action state')
    (own : ∀ caller, action.caller = some caller → caller = call)
    (early : (state'.calls call).Early) :
    (state.calls call).Early ∧ KeepsLive config state action := by
  cases taken with
  | install phase =>
      obtain rfl := own _ rfl
      simp only [CompactionState.install, setCall_self] at early
      exact early.elim
  | mark phase =>
      obtain rfl := own _ rfl
      simp only [CompactionState.mark, setCall_self] at early
      exact early.elim
  | startReclaim phase =>
      obtain rfl := own _ rfl
      rw [setCall_self] at early
      exact early.elim
  | waitForReaders phase =>
      obtain rfl := own _ rfl
      rw [setCall_self] at early
      exact early.elim
  | checkReaders phase =>
      obtain rfl := own _ rfl
      rw [setCall_self] at early
      exact early.elim
  | unlink phase =>
      obtain rfl := own _ rfl
      simp only [CompactionState.unlink, setCall_self] at early
      exact early.elim
  | leave phase =>
      obtain rfl := own _ rfl
      rw [setCall_self] at early
      exact early.elim
  | finish phase =>
      obtain rfl := own _ rfl
      rw [setCall_self] at early
      exact early.elim
  | giveUp before =>
      obtain rfl := own _ rfl
      simp only [CompactionState.giveUp, setCall_self] at early
      exact early.elim
  | draw free => exact ⟨early, True.intro⟩
  | push drawn name whole => exact ⟨early, True.intro⟩
  | _ phase =>
      obtain rfl := own _ rfl
      exact ⟨phase ▸ True.intro, True.intro⟩

/-- Before its install the only call has taken nothing out of the map. -/
theorem early_departed
    {start : CompactionState} (rest : start.AtRest)
    (run : Reaches (CompactionStep config) (OneCall config call) start
      state) :
    state.Named config ∧ ((state.calls call).Early → state.Departed) := by
  refine run.invariant
    (fun state => state.Named config ∧
      ((state.calls call).Early → state.Departed))
    ⟨rest.named, fun _ => rest.departed⟩ ?_
  intro before action after kept one taken
  refine ⟨kept.1.step one.1 taken, fun early => ?_⟩
  obtain ⟨earlyBefore, keeps⟩ := early_before taken one.2 early
  exact (kept.2 earlyBefore).step kept.1 keeps taken

/-- Since the snapshot of the job the live map has only grown by what was
pushed. -/
structure OnlyPushed (origin state : CompactionState) (job : CompactionJob)
    (call : Nat) (pushed : List SSTable) : Prop where
  job : (state.calls call).job = some job
  published : state.published = origin.published ++ pushed
  levels : ∀ level,
    state.levels level = origin.levels level ++ pushedAt level pushed

theorem OnlyPushed.step
    {origin : CompactionState} {job : CompactionJob}
    {pushed : List SSTable} {action : CompactionAction}
    (only : OnlyPushed origin state job call pushed)
    (taken : CompactionStep config state action state')
    (own : ∀ caller, action.caller = some caller → caller = call)
    (early : (state'.calls call).Early) :
    ∃ pushed', OnlyPushed origin state' job call pushed' := by
  have found := only.job
  cases taken with
  | readInput phase unmarked =>
      obtain rfl := own _ rfl
      refine ⟨pushed, ?_, only.published, only.levels⟩
      rw [phase] at found
      rw [setCall_self]
      exact found
  | merge phase =>
      obtain rfl := own _ rfl
      refine ⟨pushed, ?_, only.published, only.levels⟩
      rw [phase] at found
      simp only [CompactionState.merge, setCall_self]
      exact found
  | draw free => exact ⟨pushed, only.job, only.published, only.levels⟩
  | @push sequence table drawn name whole =>
      refine ⟨pushed ++ [table], only.job, ?_, fun level => ?_⟩
      · simp only [CompactionState.push, only.published, List.append_assoc]
      · cases level with
        | zero =>
            simp only [CompactionState.push, publish_zero, only.levels 0,
              pushedAt, if_pos, List.append_assoc]
        | succ level =>
            simp only [CompactionState.push, publish_succ]
            exact only.levels (level + 1)
  | giveUp before =>
      obtain rfl := own _ rfl
      simp only [CompactionState.giveUp, setCall_self] at early
      exact early.elim
  | install phase =>
      obtain rfl := own _ rfl
      simp only [CompactionState.install, setCall_self] at early
      exact early.elim
  | _ phase =>
      obtain rfl := own _ rfl
      rw [phase] at found
      exact absurd found (by simp [CompactionCall.job])

theorem onlyPushed_of_snapshot
    {action : CompactionAction}
    (taken : CompactionStep config state action state')
    (takes : action.TakesSnapshot call) :
    ∃ job, job.TakenFrom state ∧ OnlyPushed state state' job call [] := by
  have levels : ∀ level,
      state.levels level = state.levels level ++ pushedAt level [] := by
    intro level
    simp [pushedAt]
  cases taken with
  | @snapshotLevel caller level order selection phase due =>
      obtain rfl := takes
      refine ⟨.ifNeeded level selection (state.levels level), rfl, ?_, ?_,
        levels⟩
      · simp only [CompactionState.snapshotLevel, setCall_self]
        rfl
      · exact (List.append_nil _).symm
  | snapshotAll phase needed =>
      obtain rfl := takes
      refine ⟨.all state.allInputs, rfl, ?_, ?_, levels⟩
      · simp only [CompactionState.snapshotAll, setCall_self]
        rfl
      · exact (List.append_nil _).symm
  | _ => exact takes.elim

/-! ## The install -/

section

variable {origin : CompactionState} {job : CompactionJob}
variable {output : OutputFiles} {pushed : List SSTable}

theorem OnlyPushed.apart
    (only : OnlyPushed origin state job call pushed)
    (named : state.Named config) (fresh : job.TakenFrom origin)
    {level : Nat} {table old : SSTable}
    (member : table ∈ pushedAt level pushed) (inSnapshot : old ∈ job.snapshot) :
    old.name ≠ table.name := by
  intro same
  have live : table ∈ state.levels level := by
    rw [only.levels]
    exact List.mem_append_right _ member
  have oldLive : ∃ level', old ∈ origin.levels level' := by
    cases job with
    | ifNeeded target order snapshot =>
        have fromLevel : snapshot = origin.levels target := fresh
        exact ⟨target, fromLevel ▸ inSnapshot⟩
    | all inputs =>
        have fromLevels : inputs = origin.allInputs := fresh
        rw [CompactionJob.snapshot, fromLevels] at inSnapshot
        rcases List.mem_append.mp inSnapshot with top | low
        · exact ⟨0, (validUnmarked_sublist _ _).subset top⟩
        · exact ⟨1, (validUnmarked_sublist _ _).subset low⟩
  obtain ⟨level', before⟩ := oldLive
  have stillLive : old ∈ state.levels level' := by
    rw [only.levels]
    exact List.mem_append_left _ before
  obtain rfl := named.eq_of_name_eq stillLive live same
  have sameLevel : level' = level := by
    rw [← named.placed level' old stillLive]
    exact named.placed level old live
  subst sameLevel
  have names := named.unique level'
  rw [only.levels, List.map_append, List.nodup_append] at names
  exact names.2.2 _ (List.mem_map_of_mem before) _
    (List.mem_map_of_mem member) rfl

/-- What came into a level since the snapshot, with what the job does not
know. -/
theorem OnlyPushed.concurrent
    (only : OnlyPushed origin state job call pushed)
    (named : state.Named config) (departed : state.Departed)
    (fresh : job.TakenFrom origin) (level : Nat) :
    concurrentUnmarked state.marked (state.levels level) job.snapshot =
      remainingTables (origin.levels level) job.snapshot ++
        pushedAt level pushed := by
  rw [concurrentUnmarked_eq (departed.unmarked level), only.levels,
    remainingTables_append_left]
  congr 1
  exact remainingTables_of_apart fun table member old inSnapshot =>
    only.apart named fresh member inSnapshot

theorem kept_remaining
    (fresh : job.TakenFrom origin) {level : Nat}
    (touched : job.Touches level) :
    (if level = job.target then job.kept config else []) ++
        remainingTables (origin.levels level) job.snapshot =
      remainingTables (origin.levels level) (job.inputs config) := by
  cases job with
  | ifNeeded target order snapshot =>
      have here : level = target := touched
      have fromLevel : snapshot = origin.levels target := fresh
      subst here
      subst fromLevel
      rw [CompactionJob.target, if_pos rfl, CompactionJob.snapshot,
        remainingTables_self, List.append_nil]
      rfl
  | all inputs =>
      rw [CompactionJob.kept, ite_self, List.nil_append]
      rfl

theorem OnlyPushed.installed
    (only : OnlyPushed origin state job call pushed)
    (named : state.Named config) (departed : state.Departed)
    (fresh : job.TakenFrom origin) (level : Nat) :
    (job.install config output state.marked state.levels level).Perm
      (job.outputsAt config output level ++
        remainingTables (origin.levels level) (job.inputs config) ++
        pushedAt level pushed) := by
  by_cases touched : job.Touches level
  · refine (job.install_perm config output state.marked state.levels
      touched).trans ?_
    rw [CompactionJob.installedAt, only.concurrent named departed fresh,
      ← kept_remaining fresh touched, CompactionJob.outputsAt]
    split
    · rw [← List.append_assoc]
      refine List.Perm.append_right _ ?_
      rw [← List.append_assoc]
      exact List.perm_append_comm.append_right _
    · exact List.Perm.refl _
  · have elsewhere : level ≠ job.target :=
      fun same => touched (same ▸ job.touches_target)
    have placed : job.Placed := named.jobs call job only.job
    rw [job.install_of_not_touches _ _ _ _ touched, only.levels,
      CompactionJob.outputsAt, if_neg elsewhere, List.nil_append,
      remainingTables_of_apart]
    intro table member old inInputs same
    have live : table ∈ state.levels level := by
      rw [only.levels]
      exact List.mem_append_left _ member
    apply touched
    rw [← named.placed level table live, ← same]
    exact placed.placed old (job.inputs_sub inInputs)

theorem toReclaim_perm
    (marked : List SstableName) (levels : Nat → List SSTable)
    (placed : job.Placed)
    (newSnapshot : ∀ table ∈ job.outputs config output,
      ∀ old ∈ job.snapshot, old.name ≠ table.name) :
    (job.toReclaim config output marked levels).Perm
      (job.inputs config) := by
  cases job with
  | all inputs => exact List.Perm.refl _
  | ifNeeded level order snapshot =>
      have inputsOnce := CompactionJob.inputs_nodup config placed
      have snapshotOnce : snapshot.Nodup := placed.unique.of_map
      refine (List.perm_ext_iff_of_nodup
        (snapshotOnce.sublist (remainingTables_sublist _ _))
        inputsOnce.of_map).mpr fun table => ?_
      have split : compactLevel config order output level snapshot =
          remainingTables snapshot
            (selectSstablesForCompaction config order level snapshot) ++
          mergedTables config output level
            (selectSstablesForCompaction config order level snapshot) :=
        compactLevel_eq config order output (fun _ => snapshot) level
      rw [mem_remainingTables, split]
      constructor
      · rintro ⟨inSnapshot, gone⟩
        refine (mem_remainingTables_or placed.unique
          (fun other => selected_sub config order level)
          inSnapshot).resolve_left fun stays => ?_
        exact gone table (List.mem_append_left _
          (List.mem_append_left _ stays)) rfl
      · intro merged
        have inSnapshot := selected_sub config order level merged
        refine ⟨inSnapshot, fun other member same => ?_⟩
        rcases List.mem_append.mp member with result | concurrent
        · rcases List.mem_append.mp result with stays | new
          · exact (mem_remainingTables.mp stays).2 table merged same.symm
          · exact newSnapshot other new table inSnapshot same.symm
        · exact (mem_concurrentUnmarked.mp concurrent).2.1 table inSnapshot
            same.symm

end

end CompactionState

open CompactionState

/-- The install leaves in every level exactly the outputs, the tables of the
snapshot that were not merged and the tables pushed since, each once, and it
reclaims exactly the merged tables. -/
def InstallsExactly (config : CompactionConfig) (call : Nat)
    (job : CompactionJob) (output : OutputFiles)
    (origin ready after : CompactionState) : Prop :=
  job.TakenFrom origin ∧
    ∃ pushed reclaimed,
      ready.published = origin.published ++ pushed ∧
      (∀ level,
        (after.levels level).Perm
          (job.outputsAt config output level ++
            remainingTables (origin.levels level) (job.inputs config) ++
            pushedAt level pushed) ∧
        ((after.levels level).map (·.name)).Nodup) ∧
      after.calls call = .marking [] reclaimed ∧
      reclaimed.Perm (job.inputs config) ∧
      (reclaimed.map (·.name)).Nodup

theorem install_keeps_flushed
    (config : CompactionConfig) (call : Nat)
    {start origin taken ready after : CompactionState}
    {action : CompactionAction} {job : CompactionJob} {output : OutputFiles}
    (rest : start.AtRest)
    (before : Reaches (CompactionStep config) (OneCall config call) start
      origin)
    (takes : action.TakesSnapshot call)
    (snapshot : CompactionStep config origin action taken)
    (between : Reaches (CompactionStep config) (OneCall config call) taken
      ready)
    (merged : ready.calls call = .compacted job output)
    (install : CompactionStep config ready (.install call) after) :
    InstallsExactly config call job output origin ready after := by
  obtain ⟨job', fresh, first⟩ := onlyPushed_of_snapshot snapshot takes
  have since : ready.Named config ∧ ((ready.calls call).Early →
      ready.Departed ∧ ∃ pushed, OnlyPushed origin ready job' call pushed) := by
    have first' : taken.Named config ∧ ((taken.calls call).Early →
        taken.Departed ∧
          ∃ pushed, OnlyPushed origin taken job' call pushed) := by
      have one := takes.oneCall config origin
      obtain ⟨named, departed⟩ := early_departed rest before
      refine ⟨named.step one.1 snapshot, fun early => ?_⟩
      obtain ⟨earlyBefore, keeps⟩ := early_before snapshot one.2 early
      exact ⟨(departed earlyBefore).step named keeps snapshot, [], first⟩
    refine between.invariant
      (fun state => state.Named config ∧ ((state.calls call).Early →
        state.Departed ∧
          ∃ pushed, OnlyPushed origin state job' call pushed)) first' ?_
    intro state action state' kept one step
    refine ⟨kept.1.step one.1 step, fun early => ?_⟩
    obtain ⟨earlyBefore, keeps⟩ := early_before step one.2 early
    obtain ⟨departed, pushed, only⟩ := kept.2 earlyBefore
    exact ⟨departed.step kept.1 keeps step, only.step step one.2 early⟩
  obtain ⟨named, early⟩ := since
  obtain ⟨departed, pushed, only⟩ := early (by rw [merged]; exact True.intro)
  have same : job = job' := by
    have found := only.job
    rw [merged] at found
    exact Option.some.inj found
  subst same
  have placed : job.Placed := named.jobs call job only.job
  have namedAfter : after.Named config := by
    have fresh' : FreshOutput config ready (.install call) := True.intro
    exact named.step fresh' install
  cases install with
  | install phase =>
      rw [merged] at phase
      cases phase
      have newSnapshot : ∀ table ∈ job.outputs config output,
          ∀ old ∈ job.snapshot, old.name ≠ table.name := by
        intro table member old inSnapshot sameName
        refine (named.written call table ?_).2 ?_
        · rw [merged]
          exact member
        · rw [← sameName]
          refine mentions_snapshot call ?_
          rw [merged]
          exact inSnapshot
      have reclaimed :=
        toReclaim_perm ready.marked ready.levels placed newSnapshot
      refine ⟨fresh, pushed, _, only.published, fun level => ?_,
        setCall_self .., reclaimed, ?_⟩
      · exact ⟨only.installed named departed fresh level,
          namedAfter.unique level⟩
      · rw [(reclaimed.map _).nodup_iff]
        exact CompactionJob.inputs_nodup config placed

/-- A table that a flush pushes while the tables of the first hour are
merged. -/
def pushedTable : SSTable :=
  ⟨.flush 0 10, [⟨"a", .bool false, 11, true⟩], 100, 3600, true⟩

def agedChosen : CompactionState :=
  { agedState.setCall 1 .flagged with compacting := true }.setCall 1
    (.chosen 1)

def agedPushed : CompactionState :=
  ((((agedReading.setCall 1 (.reading agedJob
    [agedTable "b" 1 0 true])).draw 10).push 10 pushedTable).setCall 1
      (.reading agedJob [])).merge hourlyConfig 1 agedJob (outputFiles 20)

theorem agedPushed_installed :
    InstallsExactly hourlyConfig 1 agedJob (outputFiles 20) agedChosen
      agedPushed (agedPushed.install hourlyConfig 1 agedJob
        (outputFiles 20)) := by
  have mine : ∀ caller, some 1 = some caller → caller = 1 :=
    fun caller same => (Option.some.inj same).symm
  have noOne : ∀ caller, none = some caller → caller = 1 :=
    fun caller same => absurd same (by simp)
  have chosen : Reaches (CompactionStep hourlyConfig)
      (OneCall hourlyConfig 1) agedState agedChosen :=
    ((Reaches.start agedState).next (.takeFlag 1) ⟨trivial, mine⟩
      (.takeFlag rfl rfl)).next (.choose 1 [0, 1]) ⟨trivial, mine⟩
        (.choose rfl rfl)
  have taken : CompactionStep hourlyConfig agedChosen
      (.snapshotLevel 1 [0, 1] [0, 1]) agedReading :=
    .snapshotLevel rfl rfl
  have origin : Reaches (CompactionStep hourlyConfig)
      (OneCall hourlyConfig 1) agedReading agedReading :=
    Reaches.start agedReading
  have pushed := ((origin.next (.readInput 1) ⟨trivial, mine⟩
    (.readInput rfl List.not_mem_nil)).next (.draw 10) ⟨trivial, noOne⟩
      (.draw (by decide))).next (.push pushedTable) ⟨trivial, noOne⟩
        (.push (by decide) rfl
          ⟨by decide, by decide, List.pairwise_singleton ..⟩)
  refine install_keeps_flushed hourlyConfig 1 agedState_atRest chosen ?_
    taken ((pushed.next (.readInput 1) ⟨trivial, mine⟩
      (.readInput rfl List.not_mem_nil)).next (.merge 1 (outputFiles 20))
        ⟨?_, mine⟩ (.merge rfl)) rfl (.install rfl)
  · exact rfl
  · rintro job ⟨⟩
    decide

/-- Steps of one call and of flushes, whatever the clock reads. -/
def AnyReading (call : Nat) (_ : CompactionState)
    (action : CompactionAction) : Prop :=
  ∀ caller, action.caller = some caller → caller = call

/-- The clock reads what it read when the first table was written. -/
def agedAgain : CompactionState :=
  ((agedReading.setCall 1 (.reading agedJob
    [agedTable "b" 1 0 true])).setCall 1 (.reading agedJob [])).merge
      hourlyConfig 1 agedJob (outputFiles 10)

theorem reused_name_is_not_reclaimed :
    agedState.AtRest ∧
      ∃ origin taken ready after action job output,
        Reaches (CompactionStep hourlyConfig) (AnyReading 1) agedState
          origin ∧
        action.TakesSnapshot 1 ∧
        CompactionStep hourlyConfig origin action taken ∧
        Reaches (CompactionStep hourlyConfig) (AnyReading 1) taken ready ∧
        ready.calls 1 = .compacted job output ∧
        CompactionStep hourlyConfig ready (.install 1) after ∧
        ¬ InstallsExactly hourlyConfig 1 job output origin ready after := by
  have mine : ∀ caller, some 1 = some caller → caller = 1 :=
    fun caller same => (Option.some.inj same).symm
  have chosen : Reaches (CompactionStep hourlyConfig) (AnyReading 1)
      agedState agedChosen :=
    ((Reaches.start agedState).next (.takeFlag 1) mine
      (.takeFlag rfl rfl)).next (.choose 1 [0, 1]) mine (.choose rfl rfl)
  have taken : CompactionStep hourlyConfig agedChosen
      (.snapshotLevel 1 [0, 1] [0, 1]) agedReading :=
    .snapshotLevel rfl rfl
  have merged : Reaches (CompactionStep hourlyConfig) (AnyReading 1)
      agedReading agedAgain :=
    (((Reaches.start agedReading).next (.readInput 1) mine
      (.readInput rfl List.not_mem_nil)).next (.readInput 1) mine
        (.readInput rfl List.not_mem_nil)).next (.merge 1 (outputFiles 10))
          mine (.merge rfl)
  refine ⟨agedState_atRest, agedChosen, agedReading, agedAgain,
    agedAgain.install hourlyConfig 1 agedJob (outputFiles 10),
    .snapshotLevel 1 [0, 1] [0, 1], agedJob, outputFiles 10, chosen, rfl,
    taken, merged, rfl, .install rfl, ?_⟩
  rintro ⟨-, pushed, reclaimed, -, -, marking, perm, -⟩
  have count := perm.length_eq
  cases marking
  exact absurd count (by decide)

end F4kvsLsm
