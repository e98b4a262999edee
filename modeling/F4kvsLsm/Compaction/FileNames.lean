import F4kvsLsm.Compaction.Concurrent

/-!
# File names of overlapping compactions

What an install puts into the live map, and that every table has a name of
its own through a whole run, whatever compactions overlap.
-/

namespace F4kvsLsm

/-! ## The live map after an install -/

theorem mem_remainingTables
    {files group : List SSTable} {table : SSTable} :
    table ∈ remainingTables files group ↔
      table ∈ files ∧ ∀ compacted ∈ group, compacted.name ≠ table.name := by
  simp [remainingTables]

theorem mem_concurrentUnmarked
    {marked : List SstableName} {files snapshot : List SSTable}
    {table : SSTable} :
    table ∈ concurrentUnmarked marked files snapshot ↔
      table ∈ files ∧ (∀ old ∈ snapshot, old.name ≠ table.name) ∧
        table.name ∉ marked := by
  rw [concurrentUnmarked, List.mem_filter, concurrentTables,
    mem_remainingTables, decide_eq_true_eq, and_assoc]

theorem concurrentUnmarked_sublist
    (marked : List SstableName) (files snapshot : List SSTable) :
    (concurrentUnmarked marked files snapshot).Sublist files :=
  List.filter_sublist.trans (remainingTables_sublist files snapshot)

namespace CompactionJob

variable {config : CompactionConfig} {output : OutputFiles}
variable {marked : List SstableName} {levels : Nat → List SSTable}
variable {job : CompactionJob} {level : Nat} {table : SSTable}

/-- The levels that an install replaces. -/
def Touches : CompactionJob → Nat → Prop
  | .ifNeeded target _ _, level => level = target
  | .all _, level => level = 0 ∨ level = 1

/-- The tables of the snapshot that are not merged and are installed
again. -/
def kept (config : CompactionConfig) : CompactionJob → List SSTable
  | .ifNeeded level order snapshot =>
      remainingTables snapshot
        (selectSstablesForCompaction config order level snapshot)
  | .all _ => []

/-- Files that a job has taken from the live map. -/
structure Placed (job : CompactionJob) : Prop where
  unique : (job.snapshot.map (·.name)).Nodup
  placed : ∀ table ∈ job.snapshot, job.Touches table.name.level

theorem inputs_sub (member : table ∈ job.inputs config) :
    table ∈ job.snapshot := by
  cases job with
  | ifNeeded level order snapshot => exact selected_sub config order level member
  | all inputs => exact member

theorem kept_sub (member : table ∈ job.kept config) :
    table ∈ job.snapshot := by
  cases job with
  | ifNeeded level order snapshot => exact (mem_remainingTables.mp member).1
  | all inputs => exact absurd member List.not_mem_nil

theorem kept_unique (placed : job.Placed) :
    ((job.kept config).map (·.name)).Nodup := by
  cases job with
  | ifNeeded level order snapshot =>
      exact ((remainingTables_sublist _ _).map _).nodup placed.unique
  | all inputs => exact List.nodup_nil

theorem kept_placed (placed : job.Placed) (member : table ∈ job.kept config) :
    table.name.level = job.target := by
  cases job with
  | ifNeeded level order snapshot => exact placed.placed table (kept_sub member)
  | all inputs => exact absurd member List.not_mem_nil

/-- What an install puts into a level that it replaces. -/
def installedAt (config : CompactionConfig) (output : OutputFiles)
    (marked : List SstableName) (files : List SSTable) (job : CompactionJob)
    (level : Nat) : List SSTable :=
  (if level = job.target then job.kept config ++ job.outputs config output
    else []) ++ concurrentUnmarked marked files job.snapshot

theorem install_perm
    (config : CompactionConfig) (output : OutputFiles)
    (marked : List SstableName) (levels : Nat → List SSTable)
    (touched : job.Touches level) :
    (job.install config output marked levels level).Perm
      (job.installedAt config output marked (levels level) level) := by
  cases job with
  | ifNeeded target order snapshot =>
      have here : level = target := touched
      subst here
      have kept : compactLevel config order output level snapshot =
          remainingTables snapshot
            (selectSstablesForCompaction config order level snapshot) ++
          mergedTables config output level
            (selectSstablesForCompaction config order level snapshot) :=
        compactLevel_eq config order output (fun _ => snapshot) level
      rw [install, Function.update_self, installedAt, target, if_pos rfl, kept]
      exact List.Perm.refl _
  | all inputs =>
      rcases touched with rfl | rfl
      · rw [install, Function.update_of_ne Nat.zero_ne_one,
          Function.update_self, installedAt, target, if_neg Nat.zero_ne_one]
        exact List.Perm.refl _
      · rw [install, Function.update_self, installedAt, target, if_pos rfl]
        exact List.perm_insertionSort _ _

theorem install_of_not_touches
    (config : CompactionConfig) (output : OutputFiles)
    (marked : List SstableName) (levels : Nat → List SSTable)
    (other : ¬ job.Touches level) :
    job.install config output marked levels level = levels level := by
  cases job with
  | ifNeeded target order snapshot =>
      exact Function.update_of_ne other _ _
  | all inputs =>
      rw [Touches, not_or] at other
      rw [install, Function.update_of_ne other.2,
        Function.update_of_ne other.1]

theorem mem_install
    (member : table ∈ job.install config output marked levels level) :
    table ∈ levels level ∨ level = job.target ∧
      (table ∈ job.kept config ∨ table ∈ job.outputs config output) := by
  by_cases touched : job.Touches level
  · have place := (install_perm config output marked levels touched).mem_iff.mp
      member
    rw [installedAt, List.mem_append] at place
    rcases place with written | concurrent
    · right
      by_cases here : level = job.target
      · rw [if_pos here] at written
        exact ⟨here, List.mem_append.mp written⟩
      · rw [if_neg here] at written
        exact absurd written List.not_mem_nil
    · exact Or.inl (mem_concurrentUnmarked.mp concurrent).1
  · rw [install_of_not_touches _ _ _ _ touched] at member
    exact Or.inl member

theorem outputs_placed (member : table ∈ job.outputs config output) :
    table.name.level = job.target :=
  mergedTables_level member

theorem install_placed
    (placed : job.Placed)
    (before : ∀ table ∈ levels level, table.name.level = level)
    (member : table ∈ job.install config output marked levels level) :
    table.name.level = level := by
  rcases mem_install member with live | ⟨rfl, kept | new⟩
  · exact before table live
  · exact kept_placed placed kept
  · exact outputs_placed new

/-- New tables with new names keep the names apart. -/
theorem install_unique
    (placed : job.Placed)
    (before : ((levels level).map (·.name)).Nodup)
    (distinct : ((job.outputs config output).map (·.name)).Nodup)
    (newSnapshot : ∀ table ∈ job.outputs config output,
      ∀ old ∈ job.snapshot, old.name ≠ table.name)
    (newLevel : ∀ table ∈ job.outputs config output,
      ∀ old ∈ levels level, old.name ≠ table.name) :
    ((job.install config output marked levels level).map (·.name)).Nodup := by
  by_cases touched : job.Touches level
  · rw [((install_perm config output marked levels touched).map _).nodup_iff,
      installedAt, List.map_append, List.nodup_append]
    refine ⟨?_, ((concurrentUnmarked_sublist _ _ _).map _).nodup before, ?_⟩
    · split
      · rw [List.map_append, List.nodup_append]
        refine ⟨kept_unique placed, distinct, ?_⟩
        intro name old name' new
        obtain ⟨table, kept, rfl⟩ := List.mem_map.mp old
        obtain ⟨table', written, rfl⟩ := List.mem_map.mp new
        exact newSnapshot table' written table (kept_sub kept)
      · exact List.nodup_nil
    · intro name first name' second
      obtain ⟨table, member, rfl⟩ := List.mem_map.mp first
      obtain ⟨table', concurrent, rfl⟩ := List.mem_map.mp second
      obtain ⟨live, foreign, -⟩ := mem_concurrentUnmarked.mp concurrent
      split at member
      · rcases List.mem_append.mp member with kept | written
        · exact foreign table (kept_sub kept)
        · exact (newLevel table written table' live).symm
      · exact absurd member List.not_mem_nil
  · rw [install_of_not_touches _ _ _ _ touched]
    exact before

theorem toReclaim_sub
    (member : table ∈ job.toReclaim config output marked levels) :
    table ∈ job.snapshot := by
  cases job with
  | ifNeeded level order snapshot => exact (mem_remainingTables.mp member).1
  | all inputs => exact member

/-- No table that is taken out stays in the map. -/
theorem toReclaim_apart
    (placed : job.Placed)
    (before : ∀ table ∈ levels level, table.name.level = level)
    (newSnapshot : ∀ table ∈ job.outputs config output,
      ∀ old ∈ job.snapshot, old.name ≠ table.name)
    {old : SSTable}
    (gone : old ∈ job.toReclaim config output marked levels)
    (member : table ∈ job.install config output marked levels level) :
    old.name ≠ table.name := by
  intro same
  have placedHere := install_placed placed before member
  have touched : job.Touches level := by
    rw [← placedHere, ← same]
    exact placed.placed old (toReclaim_sub gone)
  cases job with
  | ifNeeded target order snapshot =>
      have here : level = target := touched
      subst here
      rw [install, Function.update_self] at member
      exact (mem_remainingTables.mp gone).2 table member same.symm
  | all inputs =>
      have place := (install_perm config output marked levels
        touched).mem_iff.mp member
      rw [installedAt, List.mem_append] at place
      rcases place with written | concurrent
      · split at written
        · exact newSnapshot table written old gone same
        · exact absurd written List.not_mem_nil
      · exact (mem_concurrentUnmarked.mp concurrent).2.1 old gone same

/-- A merge does not write under the name of a flush. -/
theorem flush_not_mem_outputs
    (config : CompactionConfig) (output : OutputFiles) (job : CompactionJob)
    (level sequence : Nat) :
    SstableName.flush level sequence ∉
      (job.outputs config output).map (·.name) := by
  intro member
  obtain ⟨table, tableMember, same⟩ := List.mem_map.mp member
  rw [CompactionJob.outputs, mergedTables, createNewSstables,
    List.mem_mapIdx] at tableMember
  obtain ⟨index, inside, rfl⟩ := tableMember
  exact absurd same (by simp)

end CompactionJob

/-! ## Names -/

namespace CompactionState

variable {config : CompactionConfig} {state state' : CompactionState}
variable {call : Nat} {name : SstableName}

/-- Names in the live map, in the snapshots, or of tables taken out. -/
def Mentions (state : CompactionState) (name : SstableName) : Prop :=
  (∃ level, ∃ table ∈ state.levels level, table.name = name) ∨
    (∃ call, ∃ table ∈ (state.calls call).snapshot ++
      (state.calls call).reclaimed, table.name = name) ∨
    name ∈ state.marked

/-- Files have names of their own, and written tables that are not installed
are known to their call only. -/
structure Named (config : CompactionConfig) (state : CompactionState) :
    Prop where
  placed : ∀ level, ∀ table ∈ state.levels level, table.name.level = level
  unique : ∀ level, ((state.levels level).map (·.name)).Nodup
  mentioned : ∀ name, state.Mentions name → name ∈ state.names
  jobs : ∀ call job, (state.calls call).job = some job → job.Placed
  written : ∀ call, ∀ table ∈ (state.calls call).outputs config,
    table.name ∈ state.names ∧ ¬ state.Mentions table.name
  distinct : ∀ call,
    (((state.calls call).outputs config).map (·.name)).Nodup
  apart : ∀ call other, call ≠ other →
    ∀ table ∈ (state.calls call).outputs config,
      ∀ table' ∈ (state.calls other).outputs config,
        table.name ≠ table'.name
  drawnOnce : state.drawn.Nodup
  drawn : ∀ sequence ∈ state.drawn, sequence < state.sequenceNumber ∧
    SstableName.flush 0 sequence ∉ state.names
  flushed : ∀ level sequence, .flush level sequence ∈ state.names →
    sequence < state.sequenceNumber

theorem mentions_live
    {level : Nat} {table : SSTable} (member : table ∈ state.levels level) :
    state.Mentions table.name :=
  Or.inl ⟨level, table, member, rfl⟩

theorem mentions_snapshot
    (call : Nat) {table : SSTable} (member : table ∈ (state.calls call).snapshot) :
    state.Mentions table.name :=
  Or.inr (Or.inl ⟨call, table, List.mem_append_left _ member, rfl⟩)

theorem mentions_reclaimed
    (call : Nat) {table : SSTable} (member : table ∈ (state.calls call).reclaimed) :
    state.Mentions table.name :=
  Or.inr (Or.inl ⟨call, table, List.mem_append_right _ member, rfl⟩)

theorem AtRest.named (rest : state.AtRest) : state.Named config := by
  have noJob : ∀ call, (state.calls call).job = none ∧
      (state.calls call).outputs config = [] ∧
      (state.calls call).snapshot = [] ∧
      (state.calls call).reclaimed = [] := by
    intro call
    rcases rest.calls call with phase | phase <;> rw [phase] <;>
      exact ⟨rfl, rfl, rfl, rfl⟩
  constructor
  case placed => exact rest.placed
  case unique => exact rest.unique
  case mentioned =>
    intro name mentions
    rcases mentions with ⟨level, table, member, rfl⟩ |
      ⟨call, table, member, -⟩ | marked
    · exact rest.used level table member
    · rw [(noJob call).2.2.1, (noJob call).2.2.2] at member
      exact absurd member List.not_mem_nil
    · exact rest.marked name marked
  case jobs =>
    intro call job found
    rw [(noJob call).1] at found
    exact absurd found (by simp)
  case written =>
    intro call table member
    rw [(noJob call).2.1] at member
    exact absurd member List.not_mem_nil
  case distinct =>
    intro call
    rw [(noJob call).2.1]
    exact List.nodup_nil
  case apart =>
    intro call other _ table member
    rw [(noJob call).2.1] at member
    exact absurd member List.not_mem_nil
  case drawnOnce =>
    rw [rest.drawn]
    exact List.nodup_nil
  case drawn =>
    intro sequence member
    rw [rest.drawn] at member
    exact absurd member List.not_mem_nil
  case flushed => exact rest.flushed

structure CallStep (config : CompactionConfig) (call : Nat)
    (state state' : CompactionState) : Prop where
  names : state'.names = state.names
  drawn : state'.drawn = state.drawn
  sequenceNumber : state'.sequenceNumber = state.sequenceNumber
  others : ∀ other, other ≠ call → state'.calls other = state.calls other
  none : (state'.calls call).outputs config = []

theorem CallStep.of_calm
    (taken : CalmStep config call state state') :
    CallStep config call state state' :=
  ⟨taken.names, taken.drawn, taken.sequenceNumber, taken.others,
    taken.noOutputs⟩

theorem CallStep.of_install
    (config : CompactionConfig) (state : CompactionState) (call : Nat)
    (job : CompactionJob) (output : OutputFiles) :
    CallStep config call state (state.install config call job output) :=
  ⟨rfl, rfl, rfl, @install_other config state call job output,
    by rw [install_self]; rfl⟩

theorem CallStep.outputs
    (taken : CallStep config call state state') {other : Nat}
    {table : SSTable}
    (member : table ∈ (state'.calls other).outputs config) :
    other ≠ call ∧ table ∈ (state.calls other).outputs config := by
  by_cases own : other = call
  · rw [own, taken.none] at member
    exact absurd member List.not_mem_nil
  · rw [taken.others other own] at member
    exact ⟨own, member⟩

/-- Such a step may make the own output known. -/
theorem Named.callStep
    (named : state.Named config) (taken : CallStep config call state state')
    (placed : ∀ level, ∀ table ∈ state'.levels level,
      table.name.level = level)
    (unique : ∀ level, ((state'.levels level).map (·.name)).Nodup)
    (job : ∀ job, (state'.calls call).job = some job → job.Placed)
    (mentions : ∀ name, state'.Mentions name → state.Mentions name ∨
      ∃ table ∈ (state.calls call).outputs config, table.name = name) :
    state'.Named config := by
  constructor
  case placed => exact placed
  case unique => exact unique
  case mentioned =>
    intro name mention
    rw [taken.names]
    rcases mentions name mention with before | ⟨table, member, rfl⟩
    · exact named.mentioned name before
    · exact (named.written call table member).1
  case jobs =>
    intro other otherJob found
    by_cases own : other = call
    · rw [own] at found
      exact job otherJob found
    · rw [taken.others other own] at found
      exact named.jobs other otherJob found
  case written =>
    intro other table member
    obtain ⟨foreign, before⟩ := taken.outputs member
    obtain ⟨used, unknown⟩ := named.written other table before
    refine ⟨taken.names ▸ used, fun mention => ?_⟩
    rcases mentions _ mention with known | ⟨own, ownMember, same⟩
    · exact unknown known
    · exact named.apart call other foreign.symm own ownMember table before
        same
  case distinct =>
    intro other
    by_cases own : other = call
    · rw [own, taken.none]
      exact List.nodup_nil
    · rw [taken.others other own]
      exact named.distinct other
  case apart =>
    intro first second different table member table' member'
    exact named.apart first second different
      table (taken.outputs member).2 table' (taken.outputs member').2
  case drawnOnce => exact taken.drawn ▸ named.drawnOnce
  case drawn =>
    rw [taken.drawn, taken.sequenceNumber, taken.names]
    exact named.drawn
  case flushed =>
    rw [taken.sequenceNumber, taken.names]
    exact named.flushed

theorem validUnmarked_sublist
    (marked : List SstableName) (files : List SSTable) :
    (validUnmarked marked files).Sublist files :=
  List.filter_sublist.trans List.filter_sublist

/-- The inputs of `compact_all` are files of levels 0 and 1. -/
theorem Named.allInputs
    (named : state.Named config) :
    (CompactionJob.all state.allInputs).Placed := by
  constructor
  case unique =>
    rw [CompactionJob.snapshot, CompactionState.allInputs, List.map_append,
      List.nodup_append]
    refine ⟨((validUnmarked_sublist _ _).map _).nodup (named.unique 0),
      ((validUnmarked_sublist _ _).map _).nodup (named.unique 1), ?_⟩
    intro name first name' second same
    obtain ⟨table, member, rfl⟩ := List.mem_map.mp first
    obtain ⟨table', member', rfl⟩ := List.mem_map.mp second
    have low := named.placed 0 table
      ((validUnmarked_sublist _ _).subset member)
    have high := named.placed 1 table'
      ((validUnmarked_sublist _ _).subset member')
    rw [same, high] at low
    exact absurd low (by omega)
  case placed =>
    intro table member
    rcases List.mem_append.mp member with top | low
    · exact Or.inl (named.placed 0 table
        ((validUnmarked_sublist _ _).subset top))
    · exact Or.inr (named.placed 1 table
        ((validUnmarked_sublist _ _).subset low))

/-- A job on files of the live map. -/
theorem Named.takenFrom
    (named : state.Named config) {job : CompactionJob}
    (fresh : job.TakenFrom state) : job.Placed := by
  cases job with
  | ifNeeded level order snapshot =>
      have same : snapshot = state.levels level := fresh
      subst same
      exact ⟨named.unique level, named.placed level⟩
  | all inputs =>
      have same : inputs = state.allInputs := fresh
      rw [same]
      exact named.allInputs

theorem mentions_takenFrom
    {job : CompactionJob} (fresh : job.TakenFrom state) {table : SSTable}
    (member : table ∈ job.snapshot) : state.Mentions table.name := by
  cases job with
  | ifNeeded level order snapshot =>
      have same : snapshot = state.levels level := fresh
      exact mentions_live (same ▸ member)
  | all inputs =>
      have same : inputs = state.allInputs := fresh
      rw [CompactionJob.snapshot, same] at member
      rcases List.mem_append.mp member with top | low
      · exact mentions_live ((validUnmarked_sublist _ _).subset top)
      · exact mentions_live ((validUnmarked_sublist _ _).subset low)

/-- What is known after a calm step was known before it. -/
theorem mentions_of_calm
    (taken : CalmStep config call state state')
    (mention : state'.Mentions name) : state.Mentions name := by
  rcases mention with ⟨level, table, member, rfl⟩ |
    ⟨other, table, member, rfl⟩ | marked
  · rw [taken.levels] at member
    exact mentions_live member
  · by_cases own : other = call
    · subst own
      rcases List.mem_append.mp member with snapshot | reclaimed
      · rw [CompactionCall.snapshot] at snapshot
        split at snapshot
        · case h_1 job found =>
            rcases taken.job job found with before | fresh
            · refine mentions_snapshot other ?_
              rw [CompactionCall.snapshot, before]
              exact snapshot
            · exact mentions_takenFrom fresh snapshot
        · exact absurd snapshot List.not_mem_nil
      · exact mentions_reclaimed other (taken.reclaimed table reclaimed)
    · rw [taken.others other own] at member
      exact Or.inr (Or.inl ⟨other, table, member, rfl⟩)
  · rcases taken.marked name marked with before | ⟨table, member, rfl⟩
    · exact Or.inr (Or.inr before)
    · exact mentions_reclaimed call member

theorem Named.calm
    (named : state.Named config) (taken : CalmStep config call state state') :
    state'.Named config := by
  refine named.callStep (.of_calm taken) ?_ ?_ ?_ ?_
  · rw [taken.levels]
    exact named.placed
  · rw [taken.levels]
    exact named.unique
  · intro job found
    rcases taken.job job found with before | fresh
    · exact named.jobs call job before
    · exact named.takenFrom fresh
  · exact fun name mention => Or.inl (mentions_of_calm taken mention)

theorem mentions_of_merge
    {job : CompactionJob} {output : OutputFiles}
    (phase : state.calls call = .reading job [])
    (mention : (state.merge config call job output).Mentions name) :
    state.Mentions name := by
  rcases mention with live | ⟨other, table, member, rfl⟩ | marked
  · exact Or.inl live
  · by_cases here : other = call
    · rw [here, merge_self, CompactionCall.reclaimed, List.append_nil]
        at member
      · refine mentions_snapshot call ?_
        rw [phase]
        exact member
      · simp
      · simp
    · rw [merge_other other here] at member
      exact Or.inr (Or.inl ⟨other, table, member, rfl⟩)
  · exact Or.inr (Or.inr marked)

theorem mentions_of_install
    {job : CompactionJob} {output : OutputFiles}
    (phase : state.calls call = .compacted job output)
    (mention : (state.install config call job output).Mentions name) :
    state.Mentions name ∨
      ∃ table ∈ (state.calls call).outputs config, table.name = name := by
  have snapshot : ∀ table ∈ job.snapshot, state.Mentions table.name := by
    intro table member
    refine mentions_snapshot call ?_
    rw [phase]
    exact member
  rcases mention with ⟨level, table, member, rfl⟩ |
    ⟨other, table, member, rfl⟩ | marked
  · rcases CompactionJob.mem_install member with live | ⟨-, kept | new⟩
    · exact Or.inl (mentions_live live)
    · exact Or.inl (snapshot table (CompactionJob.kept_sub kept))
    · rw [phase]
      exact Or.inr ⟨table, new, rfl⟩
  · left
    by_cases here : other = call
    · rw [here, install_self] at member
      exact snapshot table (CompactionJob.toReclaim_sub member)
    · rw [install_other other here] at member
      exact Or.inr (Or.inl ⟨other, table, member, rfl⟩)
  · exact Or.inl (Or.inr (Or.inr marked))

theorem Named.merge
    (named : state.Named config) {job : CompactionJob} {output : OutputFiles}
    (phase : state.calls call = .reading job [])
    (fresh : ((job.outputs config output).map (·.name)).Nodup ∧
      ∀ table ∈ job.outputs config output, table.name ∉ state.names) :
    (state.merge config call job output).Named config := by
  have own := merge_self config state call job output
  have others := @merge_other config state call job output
  have written : ∀ other,
      ∀ table ∈ ((state.merge config call job output).calls other).outputs
        config,
      other = call ∧ table ∈ job.outputs config output ∨
        other ≠ call ∧ table ∈ (state.calls other).outputs config := by
    intro other table member
    by_cases here : other = call
    · rw [here, own] at member
      exact Or.inl ⟨here, member⟩
    · rw [others other here] at member
      exact Or.inr ⟨here, member⟩
  constructor
  case placed => exact named.placed
  case unique => exact named.unique
  case mentioned =>
    exact fun name mention => List.mem_append_right _
      (named.mentioned name (mentions_of_merge phase mention))
  case jobs =>
    intro other otherJob found
    by_cases here : other = call
    · rw [here, own] at found
      rw [← Option.some.inj found]
      exact named.jobs call job (by rw [phase]; rfl)
    · rw [others other here] at found
      exact named.jobs other otherJob found
  case written =>
    intro other table member
    rcases written other table member with ⟨-, new⟩ | ⟨-, old⟩
    · refine ⟨List.mem_append_left _ (List.mem_map_of_mem new), ?_⟩
      exact fun mention => fresh.2 table new
        (named.mentioned _ (mentions_of_merge phase mention))
    · obtain ⟨used, unknown⟩ := named.written other table old
      exact ⟨List.mem_append_right _ used,
        fun mention => unknown (mentions_of_merge phase mention)⟩
  case distinct =>
    intro other
    by_cases here : other = call
    · rw [here, own]
      exact fresh.1
    · rw [others other here]
      exact named.distinct other
  case apart =>
    intro first second different table member table' member' same
    rcases written first table member with ⟨rfl, new⟩ | ⟨-, old⟩ <;>
      rcases written second table' member' with ⟨rfl, new'⟩ | ⟨-, old'⟩
    · exact different rfl
    · exact fresh.2 table new
        (same ▸ (named.written second table' old').1)
    · exact fresh.2 table' new'
        (same ▸ (named.written first table old).1)
    · exact named.apart first second different table old table' old' same
  case drawnOnce => exact named.drawnOnce
  case drawn =>
    intro sequence member
    obtain ⟨bound, unused⟩ := named.drawn sequence member
    refine ⟨bound, fun used => ?_⟩
    rcases List.mem_append.mp used with new | old
    · exact absurd new (job.flush_not_mem_outputs config output _ sequence)
    · exact unused old
  case flushed =>
    intro level sequence used
    rcases List.mem_append.mp used with new | old
    · exact absurd new (job.flush_not_mem_outputs config output _ sequence)
    · exact named.flushed level sequence old

theorem Named.install
    (named : state.Named config) {job : CompactionJob} {output : OutputFiles}
    (phase : state.calls call = .compacted job output) :
    (state.install config call job output).Named config := by
  have own := install_self config state call job output
  have placed : job.Placed := named.jobs call job (by rw [phase]; rfl)
  have outputs : (state.calls call).outputs config =
      job.outputs config output := by rw [phase]; rfl
  have snapshot : ∀ table ∈ job.snapshot, state.Mentions table.name := by
    intro table member
    refine mentions_snapshot call ?_
    rw [phase]
    exact member
  have unknown : ∀ table ∈ job.outputs config output,
      ¬ state.Mentions table.name := by
    rw [← outputs]
    exact fun table member => (named.written call table member).2
  refine named.callStep (.of_install config state call job output)
    ?_ ?_ ?_ ?_
  · intro level table member
    exact job.install_placed placed (named.placed level) member
  · intro level
    refine job.install_unique placed (named.unique level) ?_ ?_ ?_
    · rw [← outputs]
      exact named.distinct call
    · intro table member old oldMember same
      exact unknown table member (same ▸ snapshot old oldMember)
    · intro table member old oldMember same
      exact unknown table member (same ▸ mentions_live oldMember)
  · intro otherJob found
    rw [own] at found
    exact absurd found (by simp [CompactionCall.job])
  · exact fun name mention => mentions_of_install phase mention

theorem Named.draw
    (named : state.Named config) {sequence : Nat}
    (free : state.sequenceNumber ≤ sequence) :
    (state.draw sequence).Named config where
  placed := named.placed
  unique := named.unique
  mentioned := named.mentioned
  jobs := named.jobs
  written := named.written
  distinct := named.distinct
  apart := named.apart
  drawnOnce := by
    refine List.nodup_cons.mpr ⟨fun member => ?_, named.drawnOnce⟩
    have bound := (named.drawn sequence member).1
    omega
  drawn := by
    intro other member
    rcases List.mem_cons.mp member with rfl | before
    · refine ⟨Nat.lt_succ_self _, fun used => ?_⟩
      have bound := named.flushed 0 other used
      omega
    · obtain ⟨bound, unused⟩ := named.drawn other before
      exact ⟨bound.trans (by omega : _ < sequence + 1), unused⟩
  flushed := fun level other used =>
    (named.flushed level other used).trans
      (by omega : state.sequenceNumber < sequence + 1)

theorem mem_publish
    {levels : Nat → List SSTable} {table other : SSTable} {level : Nat}
    (member : other ∈ LsmTree.publish levels table level) :
    other ∈ levels level ∨ level = 0 ∧ other = table := by
  cases level with
  | zero =>
      rw [publish_zero, List.mem_append, List.mem_singleton] at member
      exact member.imp_right fun same => ⟨rfl, same⟩
  | succ level =>
      rw [publish_succ] at member
      exact Or.inl member

theorem mentions_of_push
    {sequence : Nat} {table : SSTable}
    (mention : (state.push sequence table).Mentions name) :
    state.Mentions name ∨ name = table.name := by
  rcases mention with ⟨level, live, member, rfl⟩ | held | marked
  · rcases mem_publish member with before | ⟨-, same⟩
    · exact Or.inl (mentions_live before)
    · exact Or.inr (by rw [same])
  · exact Or.inl (Or.inr (Or.inl held))
  · exact Or.inl (Or.inr (Or.inr marked))

theorem Named.push
    (named : state.Named config) {sequence : Nat} {table : SSTable}
    (drawn : sequence ∈ state.drawn) (name : table.name = .flush 0 sequence) :
    (state.push sequence table).Named config := by
  obtain ⟨bound, unused⟩ := named.drawn sequence drawn
  rw [← name] at unused
  constructor
  case placed =>
    intro level other member
    rcases mem_publish member with before | ⟨rfl, rfl⟩
    · exact named.placed level other before
    · rw [name]
      rfl
  case unique =>
    intro level
    cases level with
    | zero =>
        simp only [CompactionState.push, publish_zero]
        rw [List.map_append, List.nodup_append]
        refine ⟨named.unique 0, List.nodup_singleton _, ?_⟩
        intro other member new isNew same
        obtain ⟨live, liveMember, rfl⟩ := List.mem_map.mp member
        rw [List.map_singleton, List.mem_singleton] at isNew
        refine unused (named.mentioned _ ?_)
        rw [← isNew, ← same]
        exact mentions_live liveMember
    | succ level =>
        simp only [CompactionState.push, publish_succ]
        exact named.unique (level + 1)
  case mentioned =>
    intro other mention
    rcases mentions_of_push mention with before | rfl
    · exact List.mem_cons_of_mem _ (named.mentioned other before)
    · exact List.mem_cons_self ..
  case jobs => exact named.jobs
  case written =>
    intro call other member
    obtain ⟨used, unknown⟩ := named.written call other member
    refine ⟨List.mem_cons_of_mem _ used, fun mention => ?_⟩
    rcases mentions_of_push mention with before | same
    · exact unknown before
    · exact unused (same ▸ used)
  case distinct => exact named.distinct
  case apart => exact named.apart
  case drawnOnce => exact named.drawnOnce.erase sequence
  case drawn =>
    intro other member
    obtain ⟨different, before⟩ :=
      (named.drawnOnce.mem_erase_iff).mp member
    obtain ⟨otherBound, otherUnused⟩ := named.drawn other before
    refine ⟨otherBound, fun used => ?_⟩
    rcases List.mem_cons.mp used with new | old
    · rw [name, SstableName.flush.injEq] at new
      exact different new.2
    · exact otherUnused old
  case flushed =>
    intro level other used
    rcases List.mem_cons.mp used with new | old
    · rw [name, SstableName.flush.injEq] at new
      rw [new.2]
      exact bound
    · exact named.flushed level other old

theorem Named.step
    {action : CompactionAction} (named : state.Named config)
    (fresh : FreshOutput config state action)
    (taken : CompactionStep config state action state') :
    state'.Named config := by
  have whole := taken
  cases taken with
  | merge phase => exact named.merge phase (fresh _ phase)
  | install phase => exact named.install phase
  | draw free => exact named.draw free
  | push drawn name whole => exact named.push drawn name
  | _ => exact named.calm (whole.calm rfl)

end CompactionState

end F4kvsLsm
