import F4kvsLsm.Compaction.Preserved
import F4kvsLsm.Core.Load

/-!
# A crash during a compaction

Nothing records which tables are inputs and which are outputs.  After a crash
a new engine loads every file it finds: the outputs written so far and the
inputs that were not unlinked.  Level 0 can lose a tombstone in this way, and
in level 1 an input that is still there can hide an output.
-/

namespace F4kvsLsm

open Versions

/-! ## Compactions as plans -/

/-- The tables that a compaction merges and the level it writes to. -/
structure CompactionPlan where
  level : Nat
  inputs : List SSTable

def CompactionPlan.outputs (config : CompactionConfig) (output : OutputFiles)
    (plan : CompactionPlan) : List SSTable :=
  mergedTables config output plan.level plan.inputs

/-- What `compactIfNeeded` merges. -/
def planIfNeeded (config : CompactionConfig) (order : List Nat)
    (levels : Nat → List SSTable) : Option CompactionPlan :=
  (levelToCompact config order levels).map fun level =>
    ⟨level, compactedGroup config order levels level⟩

/-- What `compactAll` merges. -/
def planAll (config : CompactionConfig) (levels : Nat → List SSTable) :
    Option CompactionPlan :=
  let validL0 := validSstablesForCompact (levels 0)
  let validL1 := validSstablesForCompact (levels 1)
  let needsRewrite := (validL0 ++ validL1).any (!·.blockCompressed)
  if config.levelCount < 2 ∨ validL0.length < 2 ∧ ¬ needsRewrite ∨
      (validL0 ++ validL1).isEmpty then none
  else some ⟨1, validL0 ++ validL1⟩

/-- Both kinds of compaction. -/
def Planned (config : CompactionConfig) (order : List Nat)
    (levels : Nat → List SSTable) (plan : CompactionPlan) : Prop :=
  planIfNeeded config order levels = some plan ∨
    planAll config levels = some plan

theorem compactIfNeeded_of_plan
    {config : CompactionConfig} {order : List Nat} (output : OutputFiles)
    {levels : Nat → List SSTable} {plan : CompactionPlan}
    (planned : planIfNeeded config order levels = some plan) :
    compactIfNeeded config order output levels =
      Function.update levels plan.level
        (remainingTables (levels plan.level) plan.inputs ++
          plan.outputs config output) := by
  rw [planIfNeeded, Option.map_eq_some_iff] at planned
  obtain ⟨level, chosen, rfl⟩ := planned
  rw [compactIfNeeded_of_some chosen, compactLevel_eq]
  rfl

theorem compactAll_of_plan
    {config : CompactionConfig} (output : OutputFiles)
    {levels : Nat → List SSTable} {plan : CompactionPlan}
    (planned : planAll config levels = some plan) :
    compactAll config output levels =
      .ok (Function.update
        (Function.update levels 0 (concurrentTables (levels 0) plan.inputs)) 1
        (sortLeveledSstables (plan.outputs config output ++
          concurrentTables (levels 1) plan.inputs))) := by
  rw [planAll] at planned
  split at planned
  · exact absurd planned (by simp)
  · case isFalse busy =>
      rw [not_or, not_or] at busy
      rw [← Option.some.inj planned, compactAll, if_neg busy.1]
      dsimp only
      rw [if_neg busy.2.1, if_neg busy.2.2]
      rfl

/-! ## What a crash leaves -/

/-- The files that a crash leaves: old tables that have survived and outputs
that have been written.  The outputs are written in order, and no input is
unlinked before all of them are; an input that a reader held open may stay
for good. -/
structure CrashDirectory (tables inputs outputs : List SSTable) where
  files : List SSTable
  survivors : List SSTable
  written : List SSTable
  /-- Names of files that do not open. -/
  torn : List SstableName
  listed : files.Perm (survivors ++ written)
  names : (files.map (·.name)).Nodup
  kept : survivors.Sublist tables
  untouched : ∀ table ∈ tables, table ∉ inputs → table ∈ survivors
  started : written <+: outputs
  unlinking : written = outputs ∨ survivors = tables

/-- A new engine on some files; the log gives it the memtables back. -/
def LsmTree.reload (tree : LsmTree) (files : List SSTable)
    (torn : List SstableName) (sequenceFile : Nat) : LsmTree :=
  let loaded :=
    loadExistingSstables (files.map (·.name) ++ torn) files sequenceFile
  { tree with levels := loaded.1, sequenceNumber := loaded.2 }

def LsmTree.newestVersion (tree : LsmTree) (key : String) :
    Option SSTableEntry :=
  latest (allEntries (tree.levels 0 ++ tree.levels 1)) key

/-- In level 0 no unlinked tombstone hid something: below it there is another
one in a surviving table, or no version at all. -/
def SurvivorsKeepDeletions (tree : LsmTree) (survivors : List SSTable) :
    Prop :=
  let top := allEntries (loadLevel survivors 0)
  ∀ key tombstone,
    memtableValue (tree.active :: tree.immutables) key = none →
    latest (allEntries (tree.levels 0)) key = some tombstone →
    tombstone.deleted = true → tombstone ∉ top →
      (∃ older, latest top key = some older ∧ older.deleted = true) ∨
        latest top key = none ∧
          ∀ entry ∈ allEntries (tree.levels 1), entry.key ≠ key

/-- Where a surviving table answers for a key, in level 0 or as the first
table of level 1 that reaches the key, it answers as the newest version. -/
def SurvivorsAgree (tree : LsmTree) (files survivors : List SSTable) : Prop :=
  ∀ key, memtableValue (tree.active :: tree.immutables) key = none →
    match latest (allEntries (loadLevel survivors 0)) key with
    | some left =>
        left.visible = (tree.newestVersion key).bind SSTableEntry.visible
    | none =>
        ∀ table ∈ survivors, reaching (loadLevel files 1) key = some table →
          (table.lookup key).bind SSTableEntry.visible =
            (tree.newestVersion key).bind SSTableEntry.visible

/-! ## Reading after a reload -/

section

variable {config : CompactionConfig} {order : List Nat}
variable {output : OutputFiles} {tree : LsmTree}

theorem LsmTree.Invariant.planned_cases
    (invariant : tree.Invariant config) {plan : CompactionPlan}
    (planned : Planned config order tree.levels plan) :
    plan.level = 0 ∧ (∀ table ∈ plan.inputs, table ∈ tree.levels 0) ∧
        0 < config.levelCount ∨
      plan.level = 1 ∧ 2 ≤ config.levelCount ∧
        ((∀ table ∈ plan.inputs, table ∈ tree.levels 1) ∨
          plan.inputs = tree.levels 0 ++ tree.levels 1) := by
  rcases planned with some | all
  · rw [planIfNeeded, Option.map_eq_some_iff] at some
    obtain ⟨level, chosen, rfl⟩ := some
    have inRange := (levelToCompact_spec chosen).1
    have part := compactedGroup_sub config order tree.levels level
    rcases invariant.level_le_one chosen with rfl | rfl
    · exact Or.inl ⟨rfl, part, inRange⟩
    · exact Or.inr ⟨rfl, inRange, Or.inl part⟩
  · rw [planAll, validSstables_eq invariant.level0,
      validSstables_eq invariant.level1.wellFormed] at all
    split at all
    · exact absurd all (by simp)
    · case isFalse busy =>
        rw [not_or] at busy
        rw [← Option.some.inj all]
        exact Or.inr ⟨rfl, by omega, Or.inr rfl⟩

theorem LsmTree.Invariant.planned_sub
    (invariant : tree.Invariant config) {plan : CompactionPlan}
    (planned : Planned config order tree.levels plan) :
    ∀ table ∈ plan.inputs, table ∈ tree.levels 0 ++ tree.levels 1 := by
  intro table member
  rw [List.mem_append]
  rcases invariant.planned_cases planned with
    ⟨-, part, -⟩ | ⟨-, -, part | whole⟩
  · exact Or.inl (part table member)
  · exact Or.inr (part table member)
  · rw [whole] at member
    exact List.mem_append.mp member

theorem LsmTree.Invariant.inputs_sub
    (invariant : tree.Invariant config) {plan : CompactionPlan}
    (planned : Planned config order tree.levels plan) :
    ∀ entry ∈ allEntries plan.inputs,
      entry ∈ allEntries (tree.levels 0 ++ tree.levels 1) := by
  intro entry member
  obtain ⟨table, input, inTable⟩ := mem_allEntries.mp member
  exact mem_allEntries.mpr
    ⟨table, invariant.planned_sub planned table input, inTable⟩

/-- The outputs hold the newest live versions of the inputs. -/
theorem LsmTree.Invariant.mem_outputs
    (invariant : tree.Invariant config) {plan : CompactionPlan}
    (planned : Planned config order tree.levels plan) {entry : SSTableEntry} :
    entry ∈ allEntries (plan.outputs config output) ↔
      latest (allEntries plan.inputs) entry.key = some entry ∧
        entry.deleted = false :=
  mem_mergedTables
    (invariant.distinctBoth.mono (invariant.inputs_sub planned))

/-- A search of merged tables shows what their inputs show. -/
theorem visible_mergedTables
    {files : List SSTable} (distinct : DistinctVersions (allEntries files))
    (config : CompactionConfig) (output : OutputFiles) (level : Nat)
    (key : String) :
    (getFromLevel 1 (mergedTables config output level files) key).bind
        SSTableEntry.visible =
      (latest (allEntries files) key).bind SSTableEntry.visible := by
  have leveled : Leveled (mergedTables config output level files) :=
    mergedTables_leveled _
  have holds : ∀ entry,
      getFromLevel 1 (mergedTables config output level files) key =
          some entry ↔
        latest (allEntries files) key = some entry ∧
          entry.deleted = false := by
    intro entry
    rw [leveled.getFromLevel_eq_some_iff 0, mem_mergedTables distinct]
    constructor
    · rintro ⟨⟨newest, live⟩, rfl⟩
      exact ⟨newest, live⟩
    · rintro ⟨newest, live⟩
      have sameKey := ((latest_eq_some_iff distinct).mp newest).1.2
      rw [sameKey]
      exact ⟨⟨newest, live⟩, rfl⟩
  cases newest : latest (allEntries files) key with
  | none =>
      have nothing : getFromLevel 1 (mergedTables config output level files)
          key = none := by
        refine Option.eq_none_iff_forall_ne_some.mpr fun entry found => ?_
        rw [holds, newest] at found
        exact absurd found.1 (by simp)
      rw [nothing]
  | some entry =>
      by_cases live : entry.deleted = false
      · rw [(holds entry).mpr ⟨newest, live⟩]
      · have deleted : entry.deleted = true := by simpa using live
        have nothing : getFromLevel 1 (mergedTables config output level files)
            key = none := by
          refine Option.eq_none_iff_forall_ne_some.mpr fun other found => ?_
          rw [holds, newest, Option.some.injEq] at found
          exact live (found.1 ▸ found.2)
        rw [nothing, Option.bind_some, entry.visible_eq_none_iff.mpr deleted]
        rfl

theorem LsmTree.Invariant.visible_outputs
    (invariant : tree.Invariant config) {plan : CompactionPlan}
    (planned : Planned config order tree.levels plan) (key : String) :
    (getFromLevel 1 (plan.outputs config output) key).bind
        SSTableEntry.visible =
      (latest (allEntries plan.inputs) key).bind SSTableEntry.visible :=
  visible_mergedTables
    (invariant.distinctBoth.mono (invariant.inputs_sub planned)) ..

/-- Reads change only where no memtable knows the key. -/
theorem get_congr_iff
    {levelCount sequence : Nat} {levels : Nat → List SSTable} :
    (∀ key, LsmTree.get levelCount
        { tree with levels := levels, sequenceNumber := sequence } key =
        tree.get levelCount key) ↔
      ∀ key, memtableValue (tree.active :: tree.immutables) key = none →
        getFromSstables levelCount levels key =
          getFromSstables levelCount tree.levels key := by
  refine forall_congr' fun key => ?_
  rw [LsmTree.get_eq, LsmTree.get_eq]
  cases memtableValue (tree.active :: tree.immutables) key <;> simp

theorem LsmTree.Invariant.newestVersion_eq
    (invariant : tree.Invariant config) (key : String) :
    tree.newestVersion key =
      (latest (allEntries (tree.levels 0)) key).or
        (getFromLevel 1 (tree.levels 1) key) := by
  have both := invariant.distinctBoth
  rw [LsmTree.newestVersion]
  cases top : latest (allEntries (tree.levels 0)) key with
  | some entry =>
      obtain ⟨⟨member, sameKey⟩, newer⟩ :=
        (latest_eq_some_iff invariant.distinct).mp top
      rw [Option.some_or, latest_eq_some_iff both]
      simp only [allEntries_append, List.mem_append]
      refine ⟨⟨Or.inl member, sameKey⟩, ?_⟩
      rintro other (high | low) otherKey
      · exact newer other high otherKey
      · exact (invariant.newer other low entry member
          (otherKey.trans sameKey.symm)).le
  | none =>
      rw [Option.none_or]
      rw [latest_eq_none_iff] at top
      refine Option.ext fun entry => ?_
      rw [latest_eq_some_iff both,
        invariant.level1.getFromLevel_eq_some_iff 0]
      simp only [allEntries_append, List.mem_append]
      constructor
      · rintro ⟨⟨high | low, sameKey⟩, -⟩
        · exact absurd sameKey (top entry high)
        · exact ⟨low, sameKey⟩
      · rintro ⟨member, sameKey⟩
        refine ⟨⟨Or.inr member, sameKey⟩, ?_⟩
        rintro other (high | low) otherKey
        · exact absurd otherKey (top other high)
        · rw [invariant.level1.eq_of_key_eq low member
            (otherKey.trans sameKey.symm)]

theorem LsmTree.Invariant.planned_levelCount
    (invariant : tree.Invariant config) {plan : CompactionPlan}
    (planned : Planned config order tree.levels plan) :
    ∃ levelCount, config.levelCount = levelCount + 1 := by
  refine ⟨config.levelCount - 1, ?_⟩
  rcases invariant.planned_cases planned with
    ⟨-, -, some⟩ | ⟨-, enough, -⟩ <;> omega

theorem LsmTree.Invariant.getFromSstables_newestVersion
    (invariant : tree.Invariant config) {plan : CompactionPlan}
    (planned : Planned config order tree.levels plan) (key : String) :
    getFromSstables config.levelCount tree.levels key =
      (tree.newestVersion key).bind SSTableEntry.visible := by
  obtain ⟨levelCount, count⟩ := invariant.planned_levelCount planned
  rw [invariant.getFromSstables_eq count, invariant.newestVersion_eq]

/-! ## What is on disk -/

namespace CrashDirectory

variable {plan : CompactionPlan}
variable (directory : CrashDirectory (tree.levels 0 ++ tree.levels 1)
  plan.inputs (plan.outputs config output))

include directory

theorem mem_files {table : SSTable} :
    table ∈ directory.files ↔
      table ∈ directory.survivors ∨ table ∈ directory.written := by
  rw [directory.listed.mem_iff, List.mem_append]

theorem mem_survivors
    (invariant : tree.Invariant config) {table : SSTable}
    (member : table ∈ directory.survivors) :
    table.name.level = 0 ∧ table ∈ tree.levels 0 ∨
      table.name.level = 1 ∧ table ∈ tree.levels 1 := by
  rcases List.mem_append.mp (directory.kept.subset member) with top | low
  · exact Or.inl ⟨invariant.placed 0 table top, top⟩
  · exact Or.inr ⟨invariant.placed 1 table low, low⟩

theorem mem_outputs {table : SSTable} (member : table ∈ directory.written) :
    table ∈ plan.outputs config output :=
  directory.started.subset member

theorem written_level {table : SSTable} (member : table ∈ directory.written) :
    table.name.level = plan.level :=
  mergedTables_level (directory.mem_outputs member)

theorem wellFormed
    (invariant : tree.Invariant config) {table : SSTable}
    (member : table ∈ directory.files) : table.WellFormed := by
  rcases directory.mem_files.mp member with old | new
  · rcases directory.mem_survivors invariant old with ⟨-, top⟩ | ⟨-, low⟩
    · exact invariant.level0 table top
    · exact invariant.level1.wellFormed table low
  · exact (mergedTables_leveled _).wellFormed table
      (directory.mem_outputs new)

/-- Every version on disk was in a table before. -/
theorem entries_sub
    (invariant : tree.Invariant config)
    (planned : Planned config order tree.levels plan)
    {table : SSTable} (member : table ∈ directory.files)
    {entry : SSTableEntry} (inTable : entry ∈ table.entries) :
    entry ∈ allEntries (tree.levels 0 ++ tree.levels 1) := by
  rcases directory.mem_files.mp member with old | new
  · exact mem_allEntries.mpr ⟨table, directory.kept.subset old, inTable⟩
  · have part := invariant.inputs_sub planned
    exact part entry (mem_mergedTables_sub (invariant.distinctBoth.mono part)
      (mem_allEntries.mpr ⟨table, directory.mem_outputs new, inTable⟩))

theorem loaded_above
    (invariant : tree.Invariant config)
    (planned : Planned config order tree.levels plan) (level : Nat) :
    loadLevel directory.files (level + 2) = [] := by
  rw [List.eq_nil_iff_forall_not_mem]
  intro table member
  obtain ⟨onDisk, placed⟩ := mem_loadLevel.mp member
  rcases directory.mem_files.mp onDisk with old | new
  · rcases directory.mem_survivors invariant old with ⟨low, -⟩ | ⟨low, -⟩ <;>
      omega
  · have here := directory.written_level new
    rcases invariant.planned_cases planned with ⟨low, -⟩ | ⟨low, -⟩ <;> omega

theorem loaded_single
    (invariant : tree.Invariant config)
    (planned : Planned config order tree.levels plan)
    (single : config.levelCount < 2) :
    loadLevel directory.files 1 = [] := by
  rw [List.eq_nil_iff_forall_not_mem]
  intro table member
  obtain ⟨onDisk, placed⟩ := mem_loadLevel.mp member
  rcases directory.mem_files.mp onDisk with old | new
  · rcases directory.mem_survivors invariant old with ⟨top, -⟩ | ⟨-, low⟩
    · omega
    · rw [invariant.single single] at low
      exact absurd low List.not_mem_nil
  · have here := directory.written_level new
    rcases invariant.planned_cases planned with ⟨top, -⟩ | ⟨-, enough, -⟩ <;>
      omega

theorem loaded_distinct
    (invariant : tree.Invariant config)
    (planned : Planned config order tree.levels plan) (level : Nat) :
    DistinctVersions (allEntries (loadLevel directory.files level)) := by
  refine invariant.distinctBoth.mono fun entry member => ?_
  obtain ⟨table, loaded, inTable⟩ := mem_allEntries.mp member
  exact directory.entries_sub invariant planned (mem_loadLevel.mp loaded).1
    inTable

/-- A new engine reads the newest version of level 0, then level 1. -/
theorem get_loaded
    (invariant : tree.Invariant config)
    (planned : Planned config order tree.levels plan) (key : String) :
    getFromSstables config.levelCount (loadLevel directory.files) key =
      ((latest (allEntries (loadLevel directory.files 0)) key).or
        (getFromLevel 1 (loadLevel directory.files 1) key)).bind
          SSTableEntry.visible := by
  obtain ⟨levelCount, count⟩ := invariant.planned_levelCount planned
  have single : levelCount = 0 → loadLevel directory.files 1 = [] :=
    fun zero => directory.loaded_single invariant planned (by omega)
  rw [count, getFromSstables_succ,
    getBelow_eq (directory.loaded_above invariant planned) single,
    getFromLevel0_eq (fun table member => directory.wellFormed invariant
      (mem_loadLevel.mp member).1)
      (directory.loaded_distinct invariant planned 0)]

/-! ## Outputs in level 0 -/

theorem loaded1_mem
    (invariant : tree.Invariant config) (bottom : plan.level = 0)
    (part : ∀ table ∈ plan.inputs, table ∈ tree.levels 0)
    (table : SSTable) :
    table ∈ loadLevel directory.files 1 ↔ table ∈ tree.levels 1 := by
  rw [mem_loadLevel, directory.mem_files]
  constructor
  · rintro ⟨old | new, here⟩
    · rcases directory.mem_survivors invariant old with ⟨top, -⟩ | ⟨-, low⟩
      · omega
      · exact low
    · have level := directory.written_level new
      omega
  · intro member
    have here := invariant.placed 1 table member
    refine ⟨Or.inl (directory.untouched table
      (List.mem_append_right _ member) fun input => ?_), here⟩
    have level := invariant.placed 0 table (part table input)
    omega

theorem loaded0_mem (bottom : plan.level = 0) (entry : SSTableEntry) :
    entry ∈ allEntries (loadLevel directory.files 0) ↔
      entry ∈ allEntries (loadLevel directory.survivors 0) ++
        allEntries directory.written := by
  simp only [List.mem_append, mem_allEntries, mem_loadLevel,
    directory.mem_files]
  constructor
  · rintro ⟨table, ⟨old | new, here⟩, inTable⟩
    · exact Or.inl ⟨table, ⟨old, here⟩, inTable⟩
    · exact Or.inr ⟨table, new, inTable⟩
  · rintro (⟨table, ⟨old, here⟩, inTable⟩ | ⟨table, new, inTable⟩)
    · exact ⟨table, ⟨Or.inl old, here⟩, inTable⟩
    · exact ⟨table, ⟨Or.inr new, (directory.written_level new).trans bottom⟩,
        inTable⟩

/-- What is in level 0 after the crash is a merge that may be incomplete. -/
theorem partialMerge
    (invariant : tree.Invariant config)
    (part : ∀ table ∈ plan.inputs, table ∈ tree.levels 0) :
    PartialMerge (allEntries (tree.levels 0)) (allEntries plan.inputs)
      (allEntries (loadLevel directory.survivors 0))
      (allEntries directory.written) := by
  have groupSub : ∀ entry ∈ allEntries plan.inputs,
      entry ∈ allEntries (tree.levels 0) := by
    intro entry member
    obtain ⟨table, input, inTable⟩ := mem_allEntries.mp member
    exact mem_allEntries.mpr ⟨table, part table input, inTable⟩
  have merged : ∀ entry, entry ∈ allEntries (plan.outputs config output) ↔
      latest (allEntries plan.inputs) entry.key = some entry ∧
        entry.deleted = false :=
    fun _ => mem_mergedTables (invariant.distinct.mono groupSub)
  have stay : ∀ table ∈ tree.levels 0, table ∈ directory.survivors →
      ∀ entry ∈ table.entries,
        entry ∈ allEntries (loadLevel directory.survivors 0) :=
    fun table member old entry inTable => mem_allEntries.mpr
      ⟨table, mem_loadLevel.mpr ⟨old, invariant.placed 0 table member⟩,
        inTable⟩
  constructor
  case distinct => exact invariant.distinct
  case stays_sub =>
    intro entry member
    obtain ⟨table, loaded, inTable⟩ := mem_allEntries.mp member
    obtain ⟨old, here⟩ := mem_loadLevel.mp loaded
    rcases directory.mem_survivors invariant old with ⟨-, top⟩ | ⟨low, -⟩
    · exact mem_allEntries.mpr ⟨table, top, inTable⟩
    · omega
  case group_sub => exact groupSub
  case cover =>
    intro entry member
    obtain ⟨table, top, inTable⟩ := mem_allEntries.mp member
    by_cases input : table ∈ plan.inputs
    · exact Or.inr (mem_allEntries.mpr ⟨table, input, inTable⟩)
    · exact Or.inl (stay table top (directory.untouched table
        (List.mem_append_left _ top) input) entry inTable)
  case newest =>
    intro entry member
    obtain ⟨table, new, inTable⟩ := mem_allEntries.mp member
    exact (merged entry).mp
      (mem_allEntries.mpr ⟨table, directory.mem_outputs new, inTable⟩)
  case complete =>
    rcases directory.unlinking with done | nothing
    · right
      intro entry found live
      rw [done]
      exact (merged entry).mpr ⟨found, live⟩
    · left
      intro entry member
      obtain ⟨table, top, inTable⟩ := mem_allEntries.mp member
      refine stay table top ?_ entry inTable
      rw [nothing]
      exact List.mem_append_left _ top

theorem get_level0_iff
    (invariant : tree.Invariant config)
    (planned : Planned config order tree.levels plan)
    (bottom : plan.level = 0)
    (part : ∀ table ∈ plan.inputs, table ∈ tree.levels 0) (sequence : Nat) :
    (∀ key, LsmTree.get config.levelCount
        { tree with
          levels := loadLevel directory.files, sequenceNumber := sequence }
        key = tree.get config.levelCount key) ↔
      SurvivorsKeepDeletions tree directory.survivors := by
  have merge := directory.partialMerge invariant part
  have low := getFromLevel_loaded invariant.level1
    (loadLevel_sorted directory.files 0)
    (directory.loaded1_mem invariant bottom part) 0
  have top := fun key => latest_congr
    (merge.distinct.mono fun entry => merge.sub)
    (directory.loaded0_mem bottom) key
  have perKey := fun key =>
    merge.visible_iff key (getFromLevel 1 (tree.levels 1) key)
  rw [get_congr_iff]
  simp only [directory.get_loaded invariant planned, low, top,
    invariant.getFromSstables_newestVersion planned,
    invariant.newestVersion_eq, perKey,
    invariant.level1_visible_eq_none_iff]
  exact ⟨fun same key tombstone hidden => same key hidden tombstone,
    fun keeps key hidden tombstone => keeps key tombstone hidden⟩

/-! ## Outputs in level 1 -/

theorem loaded0_survivors (upper : plan.level = 1) (table : SSTable) :
    table ∈ loadLevel directory.files 0 ↔
      table ∈ loadLevel directory.survivors 0 := by
  rw [mem_loadLevel, mem_loadLevel, directory.mem_files]
  constructor
  · rintro ⟨old | new, here⟩
    · exact ⟨old, here⟩
    · have level := directory.written_level new
      omega
  · rintro ⟨old, here⟩
    exact ⟨Or.inl old, here⟩

theorem latest_loaded0
    (invariant : tree.Invariant config)
    (planned : Planned config order tree.levels plan)
    (upper : plan.level = 1) (key : String) :
    latest (allEntries (loadLevel directory.files 0)) key =
      latest (allEntries (loadLevel directory.survivors 0)) key := by
  refine (latest_congr (directory.loaded_distinct invariant planned 0)
    (fun entry => ?_) key).symm
  simp only [mem_allEntries, directory.loaded0_survivors upper]

theorem newest_reaches
    (invariant : tree.Invariant config)
    (planned : Planned config order tree.levels plan)
    (upper : plan.level = 1) {key : String} {entry : SSTableEntry}
    (newest : tree.newestVersion key = some entry)
    (live : entry.deleted = false)
    (none0 : latest (allEntries (loadLevel directory.survivors 0)) key =
      none) :
    ∃ table ∈ loadLevel directory.files 1, entry ∈ table.entries := by
  have both := invariant.distinctBoth
  obtain ⟨⟨member, sameKey⟩, -⟩ := (latest_eq_some_iff both).mp newest
  obtain ⟨table, tableMember, inTable⟩ := mem_allEntries.mp member
  have survivor : table ∈ directory.survivors →
      ∃ table ∈ loadLevel directory.files 1, entry ∈ table.entries := by
    intro old
    rcases directory.mem_survivors invariant old with ⟨here, -⟩ | ⟨here, -⟩
    · exact absurd sameKey (latest_eq_none_iff.mp none0 entry
        (mem_allEntries.mpr ⟨table, mem_loadLevel.mpr ⟨old, here⟩, inTable⟩))
    · exact ⟨table, mem_loadLevel.mpr
        ⟨directory.mem_files.mpr (Or.inl old), here⟩, inTable⟩
  by_cases input : table ∈ plan.inputs
  · rcases directory.unlinking with done | nothing
    · have merged : entry ∈ allEntries (plan.outputs config output) := by
        refine (invariant.mem_outputs planned).mpr ⟨?_, live⟩
        rw [sameKey]
        exact latest_mono both (invariant.inputs_sub planned) newest
          (mem_allEntries.mpr ⟨table, input, inTable⟩)
      obtain ⟨made, madeMember, inMade⟩ := mem_allEntries.mp merged
      rw [← done] at madeMember
      refine ⟨made, mem_loadLevel.mpr
        ⟨directory.mem_files.mpr (Or.inr madeMember), ?_⟩, inMade⟩
      exact (directory.written_level madeMember).trans upper
    · refine survivor ?_
      rw [nothing]
      exact tableMember
  · exact survivor (directory.untouched table tableMember input)

/-- An output at which the search of level 1 arrives is the one at which the
search of all outputs would arrive. -/
theorem reaching_outputs
    (upper : plan.level = 1) {key : String} {table : SSTable}
    (new : table ∈ directory.written)
    (found : reaching (loadLevel directory.files 1) key = some table) :
    reaching (plan.outputs config output) key = some table := by
  have leveled : Leveled (plan.outputs config output) :=
    mergedTables_leveled _
  obtain ⟨-, reaches, least⟩ :=
    reaching_spec (loadLevel_sorted _ 0) found
  rw [reaching_eq_some_iff leveled]
  refine ⟨directory.mem_outputs new, reaches, fun other member above => ?_⟩
  obtain ⟨unwritten, outputs⟩ := directory.started
  rw [← outputs] at member
  rcases List.mem_append.mp member with early | late
  · refine least other (mem_loadLevel.mpr
      ⟨directory.mem_files.mpr (Or.inr early), ?_⟩) above
    exact (directory.written_level early).trans upper
  · have ordered := leveled.largest_lt
    rw [← outputs, List.pairwise_append] at ordered
    exact (ordered.2.2 table new other late).le

/-- Where an output of a merge of level 1 answers, the newest version is
among the inputs. -/
theorem newest_inputs
    (invariant : tree.Invariant config)
    (planned : Planned config order tree.levels plan)
    (part : ∀ table ∈ plan.inputs, table ∈ tree.levels 1)
    {key : String} {table : SSTable} (new : table ∈ directory.written)
    (found : reaching (loadLevel directory.files 1) key = some table)
    (none0 : latest (allEntries (loadLevel directory.survivors 0)) key =
      none) :
    latest (allEntries plan.inputs) key = tree.newestVersion key := by
  have both := invariant.distinctBoth
  have inputsSub := invariant.inputs_sub planned
  obtain ⟨-, reaches, least⟩ := reaching_spec (loadLevel_sorted _ 0) found
  cases newest : tree.newestVersion key with
  | none =>
      rw [LsmTree.newestVersion, latest_eq_none_iff] at newest
      rw [latest_eq_none_iff]
      exact fun entry member => newest entry (inputsSub entry member)
  | some entry =>
      obtain ⟨⟨member, rfl⟩, -⟩ := (latest_eq_some_iff both).mp newest
      obtain ⟨holder, holderMember, inHolder⟩ := mem_allEntries.mp member
      by_cases input : holder ∈ plan.inputs
      · exact latest_mono both inputsSub newest
          (mem_allEntries.mpr ⟨holder, input, inHolder⟩)
      · exfalso
        have old := directory.untouched holder holderMember input
        rcases directory.mem_survivors invariant old with
          ⟨here, -⟩ | ⟨here, low⟩
        · exact latest_eq_none_iff.mp none0 entry (mem_allEntries.mpr
            ⟨holder, mem_loadLevel.mpr ⟨old, here⟩, inHolder⟩) rfl
        · -- the output ends inside an input, so the holder reaches further
          have outputWhole : table.WellFormed :=
            directory.wellFormed invariant (directory.mem_files.mpr
              (Or.inr new))
          obtain ⟨last, lastMember, lastKey⟩ := outputWhole.exists_largest
          have fromInput := mem_mergedTables_sub (both.mono inputsSub)
            (mem_allEntries.mpr
              ⟨table, directory.mem_outputs new, lastMember⟩)
          obtain ⟨source, sourceMember, inSource⟩ :=
            mem_allEntries.mp fromInput
          have different : holder ≠ source := by
            rintro rfl
            exact input sourceMember
          have below := invariant.level1.largest_lt_of_le low
            (part source sourceMember) different inHolder inSource
            (lastKey ▸ reaches)
          have holderAbove := (invariant.level1.wellFormed holder
            low).le_largestKey inHolder
          have shorter := least holder (mem_loadLevel.mpr
            ⟨directory.mem_files.mpr (Or.inl old), here⟩) holderAbove
          rw [lastKey] at below
          exact absurd shorter below.not_ge

/-- Such an output answers with the newest version. -/
theorem output_agrees
    (invariant : tree.Invariant config)
    (planned : Planned config order tree.levels plan)
    (upper : plan.level = 1) {key : String} {table : SSTable}
    (new : table ∈ directory.written)
    (found : reaching (loadLevel directory.files 1) key = some table)
    (none0 : latest (allEntries (loadLevel directory.survivors 0)) key =
      none) :
    (table.lookup key).bind SSTableEntry.visible =
      (tree.newestVersion key).bind SSTableEntry.visible := by
  have leveled : Leveled (plan.outputs config output) :=
    mergedTables_leveled _
  have here : getFromLevel 1 (plan.outputs config output) key =
      table.lookup key := by
    rw [getFromLevel_succ_eq leveled.largestSorted]
    change (reaching (plan.outputs config output) key).bind _ = _
    rw [directory.reaching_outputs upper new found]
    rfl
  rw [← here, invariant.visible_outputs planned]
  rcases invariant.planned_cases planned with
    ⟨bottom, -⟩ | ⟨-, -, part | whole⟩
  · omega
  · rw [directory.newest_inputs invariant planned part new found none0]
  · rw [whole]
    rfl

theorem get_level1_iff
    (invariant : tree.Invariant config)
    (planned : Planned config order tree.levels plan)
    (upper : plan.level = 1) (sequence : Nat) :
    (∀ key, LsmTree.get config.levelCount
        { tree with
          levels := loadLevel directory.files, sequenceNumber := sequence }
        key = tree.get config.levelCount key) ↔
      SurvivorsAgree tree directory.files directory.survivors := by
  rw [get_congr_iff, SurvivorsAgree]
  refine forall_congr' fun key => imp_congr_right fun hidden => ?_
  rw [directory.get_loaded invariant planned,
    directory.latest_loaded0 invariant planned upper,
    invariant.getFromSstables_newestVersion planned]
  cases none0 : latest (allEntries (loadLevel directory.survivors 0)) key with
  | some left => simp only [Option.some_or, Option.bind_some]
  | none =>
      rw [Option.none_or, getFromLevel_succ_eq (loadLevel_sorted _ 0)]
      change ((reaching (loadLevel directory.files 1) key).bind
        (·.lookup key)).bind _ = _ ↔ _
      cases found : reaching (loadLevel directory.files 1) key with
      | none =>
          simp only [Option.bind_none, reduceCtorEq, false_implies,
            implies_true, iff_true]
          cases newest : tree.newestVersion key with
          | none => rfl
          | some entry =>
              by_cases live : entry.deleted = false
              · obtain ⟨table, loaded, inTable⟩ := directory.newest_reaches
                  invariant planned upper newest live none0
                have below := reaching_eq_none_iff.mp found table loaded
                have whole := directory.wellFormed invariant
                  (mem_loadLevel.mp loaded).1
                have sameKey := ((latest_eq_some_iff
                  invariant.distinctBoth).mp newest).1.2
                rw [← sameKey] at below
                exact absurd (whole.le_largestKey inTable) below.not_ge
              · have deleted : entry.deleted = true := by simpa using live
                rw [Option.bind_some, entry.visible_eq_none_iff.mpr deleted]
      | some table =>
          simp only [Option.bind_some, Option.some.injEq]
          constructor
          · rintro same other - rfl
            exact same
          · intro agrees
            have onDisk :=
              (mem_loadLevel.mp (reaching_spec (loadLevel_sorted _ 0)
                found).1).1
            rcases directory.mem_files.mp onDisk with old | new
            · exact agrees table old rfl
            · exact directory.output_agrees invariant planned upper new found
                none0

end CrashDirectory

theorem CrashDirectory.survivorsAgree_of_writing
    (invariant : tree.Invariant config) {plan : CompactionPlan}
    (directory : CrashDirectory (tree.levels 0 ++ tree.levels 1) plan.inputs
      (plan.outputs config output))
    (writing : directory.survivors = tree.levels 0 ++ tree.levels 1) :
    SurvivorsAgree tree directory.files directory.survivors := by
  intro key hidden
  have top : latest (allEntries (loadLevel directory.survivors 0)) key =
      latest (allEntries (tree.levels 0)) key := by
    refine latest_congr invariant.distinct (fun entry => ?_) key
    simp only [mem_allEntries, mem_loadLevel, writing, List.mem_append]
    constructor
    · rintro ⟨table, ⟨top | low, here⟩, inTable⟩
      · exact ⟨table, top, inTable⟩
      · have above := invariant.placed 1 table low
        omega
    · rintro ⟨table, top, inTable⟩
      exact ⟨table, ⟨Or.inl top, invariant.placed 0 table top⟩, inTable⟩
  rw [top, invariant.newestVersion_eq]
  cases latest (allEntries (tree.levels 0)) key with
  | some left => rfl
  | none =>
      intro table old found
      obtain ⟨loaded, reaches, least⟩ :=
        reaching_spec (loadLevel_sorted _ 0) found
      have here := (mem_loadLevel.mp loaded).2
      have low : ∀ other ∈ tree.levels 1,
          other ∈ loadLevel directory.files 1 := by
        intro other member
        refine mem_loadLevel.mpr ⟨directory.mem_files.mpr (Or.inl ?_),
          invariant.placed 1 other member⟩
        rw [writing]
        exact List.mem_append_right _ member
      have member : table ∈ tree.levels 1 := by
        rcases directory.mem_survivors invariant old with ⟨top, -⟩ | ⟨-, low⟩
        · omega
        · exact low
      have first : reaching (tree.levels 1) key = some table :=
        (reaching_eq_some_iff invariant.level1).mpr
          ⟨member, reaches, fun other otherMember =>
            least other (low other otherMember)⟩
      rw [Option.none_or,
        getFromLevel_succ_eq invariant.level1.largestSorted]
      change _ = ((reaching (tree.levels 1) key).bind (·.lookup key)).bind _
      rw [first]
      rfl

theorem CrashDirectory.survivorsKeepDeletions_of_writing
    (invariant : tree.Invariant config) {plan : CompactionPlan}
    (directory : CrashDirectory (tree.levels 0 ++ tree.levels 1) plan.inputs
      (plan.outputs config output))
    (writing : directory.survivors = tree.levels 0 ++ tree.levels 1) :
    SurvivorsKeepDeletions tree directory.survivors := by
  intro key tombstone _ newest _ gone
  obtain ⟨⟨member, -⟩, -⟩ :=
    (latest_eq_some_iff invariant.distinct).mp newest
  obtain ⟨table, tableMember, inTable⟩ := mem_allEntries.mp member
  refine absurd (mem_allEntries.mpr ⟨table, mem_loadLevel.mpr
    ⟨?_, invariant.placed 0 table tableMember⟩, inTable⟩) gone
  rw [writing]
  exact List.mem_append_left _ tableMember

/-- As long as no input is unlinked a crash changes nothing. -/
theorem CrashDirectory.writing_get
    (invariant : tree.Invariant config) {plan : CompactionPlan}
    (planned : Planned config order tree.levels plan)
    (directory : CrashDirectory (tree.levels 0 ++ tree.levels 1) plan.inputs
      (plan.outputs config output))
    (writing : directory.survivors = tree.levels 0 ++ tree.levels 1)
    (sequenceFile : Nat) (key : String) :
    LsmTree.get config.levelCount
        (tree.reload directory.files directory.torn sequenceFile) key =
      tree.get config.levelCount key := by
  rcases invariant.planned_cases planned with
    ⟨bottom, part, -⟩ | ⟨upper, -⟩
  · exact (directory.get_level0_iff invariant planned bottom part _).mpr
      (directory.survivorsKeepDeletions_of_writing invariant writing) key
  · exact (directory.get_level1_iff invariant planned upper _).mpr
      (directory.survivorsAgree_of_writing invariant writing) key

theorem LsmTree.Invariant.reload_reads_iff
    (invariant : tree.Invariant config) {plan : CompactionPlan}
    (planned : Planned config order tree.levels plan)
    (directory : CrashDirectory (tree.levels 0 ++ tree.levels 1) plan.inputs
      (plan.outputs config output)) (sequenceFile : Nat) :
    (∀ key, LsmTree.get config.levelCount
        (tree.reload directory.files directory.torn sequenceFile) key =
        tree.get config.levelCount key) ↔
      if plan.level = 0 then SurvivorsKeepDeletions tree directory.survivors
      else SurvivorsAgree tree directory.files directory.survivors := by
  rcases invariant.planned_cases planned with
    ⟨bottom, part, -⟩ | ⟨upper, -⟩
  · rw [if_pos bottom]
    exact directory.get_level0_iff invariant planned bottom part _
  · rw [if_neg (by omega)]
    exact directory.get_level1_iff invariant planned upper _

/-- Every file is a table of the engine or an output. -/
theorem CrashDirectory.readsBack
    (invariant : tree.Invariant config)
    (readsBack : ∀ level, ∀ table ∈ tree.levels level, table.ReadsBack)
    {plan : CompactionPlan} (planned : Planned config order tree.levels plan)
    (directory : CrashDirectory (tree.levels 0 ++ tree.levels 1) plan.inputs
      (plan.outputs config output)) :
    ∀ table ∈ directory.files, table.ReadsBack := by
  have old : ∀ table ∈ tree.levels 0 ++ tree.levels 1, table.ReadsBack := by
    intro table member
    rcases List.mem_append.mp member with top | low
    · exact readsBack 0 table top
    · exact readsBack 1 table low
  have merged : ∀ table ∈ plan.outputs config output, table.ReadsBack :=
    readsBack_mergedTables fun table input =>
      old table (invariant.planned_sub planned table input)
  intro table member
  rcases List.mem_append.mp (directory.listed.subset member) with left | new
  · exact old table (directory.kept.subset left)
  · exact merged table (directory.started.subset new)

end

/-- After a crash during a compaction all reads are as before exactly when no
unlinked tombstone of level 0 hid something, or, for a merge into level 1, when
every surviving table that answers for a key agrees with its newest
version. -/
theorem reload_get_iff
    (config : CompactionConfig) (order : List Nat) (output : OutputFiles)
    (tree : LsmTree) (reachable : Reachable config tree)
    (plan : CompactionPlan)
    (planned : Planned config order tree.levels plan)
    (directory : CrashDirectory (tree.levels 0 ++ tree.levels 1) plan.inputs
      (plan.outputs config output)) (sequenceFile : Nat) :
    (∀ key, LsmTree.getChecked config.levelCount
        (tree.reload directory.files directory.torn sequenceFile) key =
        tree.getChecked config.levelCount key) ↔
      if plan.level = 0 then SurvivorsKeepDeletions tree directory.survivors
      else SurvivorsAgree tree directory.files directory.survivors := by
  have invariant := reachable.invariant
  have readsBack := reachable.readsBack.tables
  have loaded : ∀ level, ∀ table ∈ (tree.reload directory.files
      directory.torn sequenceFile).levels level, table.ReadsBack :=
    fun level table member => directory.readsBack invariant readsBack planned
      table (mem_loadLevel.mp member).1
  rw [← invariant.reload_reads_iff planned directory sequenceFile]
  refine forall_congr' fun key => ?_
  rw [LsmTree.getChecked_eq readsBack, LsmTree.getChecked_eq loaded]

/-! ## A crash before the tables of level 1 are unlinked -/

/-- A full compaction of two tables whose inputs are all unlinked. -/
def finishedDirectory :
    CrashDirectory (twoTables.levels 0 ++ twoTables.levels 1)
      (twoTables.levels 0 ++ twoTables.levels 1)
      (CompactionPlan.outputs leveledConfig (outputFiles 10)
        ⟨1, twoTables.levels 0 ++ twoTables.levels 1⟩) where
  files := CompactionPlan.outputs leveledConfig (outputFiles 10)
    ⟨1, twoTables.levels 0 ++ twoTables.levels 1⟩
  survivors := []
  written := CompactionPlan.outputs leveledConfig (outputFiles 10)
    ⟨1, twoTables.levels 0 ++ twoTables.levels 1⟩
  torn := []
  listed := List.Perm.refl _
  names := by decide
  kept := List.nil_sublist _
  untouched := fun _ member fresh => absurd member fresh
  started := List.prefix_refl _
  unlinking := Or.inl rfl

theorem finishedDirectory_get :
    LsmTree.getChecked 7 (twoTables.reload finishedDirectory.files
        finishedDirectory.torn 0) "k" =
      twoTables.getChecked 7 "k" := by
  refine (reload_get_iff leveledConfig [] (outputFiles 10) twoTables
    twoTables_reachable ⟨1, twoTables.levels 0 ++ twoTables.levels 1⟩
    (Or.inr rfl) finishedDirectory 0).mpr ?_ "k"
  rw [if_neg (by simp)]
  intro other hidden table member
  exact absurd member List.not_mem_nil

/-- An overwrite in level 0 of a key in level 1. -/
def overwritten : LsmTree :=
  flushed (putTrue (flushed
    (compactedTables.put leveledConfig.jsonLen "k" (.bool false))) "z")

/-- The inputs in level 0 are unlinked, those in level 1 are not. -/
def halfUnlinked :
    CrashDirectory (overwritten.levels 0 ++ overwritten.levels 1)
      (overwritten.levels 0 ++ overwritten.levels 1)
      (CompactionPlan.outputs leveledConfig (outputFiles 20)
        ⟨1, overwritten.levels 0 ++ overwritten.levels 1⟩) where
  files := overwritten.levels 1 ++
    CompactionPlan.outputs leveledConfig (outputFiles 20)
      ⟨1, overwritten.levels 0 ++ overwritten.levels 1⟩
  survivors := overwritten.levels 1
  written := CompactionPlan.outputs leveledConfig (outputFiles 20)
    ⟨1, overwritten.levels 0 ++ overwritten.levels 1⟩
  torn := []
  listed := List.Perm.refl _
  names := by decide
  kept := List.sublist_append_right _ _
  untouched := fun _ member fresh => absurd member fresh
  started := List.prefix_refl _
  unlinking := Or.inl rfl

/-- The old table of level 1 ends before the new one and answers first. -/
theorem unlinked_overwrite_is_undone :
    Reachable leveledConfig overwritten ∧
      planAll leveledConfig overwritten.levels =
        some ⟨1, overwritten.levels 0 ++ overwritten.levels 1⟩ ∧
      overwritten.getChecked 7 "k" = some (.bool false) ∧
      LsmTree.getChecked 7 (overwritten.reload halfUnlinked.files
        halfUnlinked.torn 0) "k" = some (.bool true) := by
  refine ⟨?_, rfl, rfl, rfl⟩
  exact ((compactedTables_reachable.put "k" (.bool false)
    ⟨rfl, by decide⟩).flushed.putTrue "z" ⟨rfl, by decide⟩).flushed

end F4kvsLsm
