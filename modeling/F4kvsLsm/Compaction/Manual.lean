import Mathlib.Data.List.Flatten
import F4kvsLsm.Lib.HighWater
import F4kvsLsm.Engine.History
import F4kvsLsm.Compaction.Crash

/-!
# Manual compaction

Runs of puts, deletes, flushes, manual compactions and restarts of an engine
that was empty at the start.  A manual compaction merges levels 0 and 1 whole,
so it may drop every tombstone: nothing is left below them.
-/

namespace F4kvsLsm

open Versions

/-- `LsmTreeEngine::compact_all`: a flush, then the compaction of levels 0 and
1.  `true` is a success. -/
def LsmTree.compactAll (config : CompactionConfig)
    (existing : List SstableName) (info : TableInfo) (outcome : FlushOutcome)
    (output : OutputFiles) (tree : LsmTree) : LsmTree × Bool :=
  let flushed := tree.flushMemtableInternal existing info outcome
  if flushed.2 then
    match F4kvsLsm.compactAll config output flushed.1.levels with
    | .ok levels => ({ flushed.1 with levels := levels }, true)
    | .error _ => (flushed.1, false)
  else flushed

/-- A new engine on some files; the log gives it one memtable. -/
def LsmTree.reopen (tree : LsmTree) (active : Memtable) (files : List SSTable)
    (torn : List SstableName) (sequenceFile : Nat) : LsmTree :=
  { tree.reload files torn sequenceFile with
    active := active, immutables := [] }

/-- Runs without automatic compaction, in which every record of a table can be
read back.  A flush may fail.  A restart opens all tables or some of them, in
any order of the directory, and finds `SEQUENCE` above their timestamps. -/
inductive ManualRun (config : CompactionConfig) : LsmTree → Prop
  | empty : ManualRun config LsmTree.empty
  | put {tree : LsmTree} (key : String) (value : Value) :
      ManualRun config tree → ReadsBack key value →
      ManualRun config (tree.put config.jsonLen key value)
  | delete {tree : LsmTree} (key : String) :
      ManualRun config tree → ReadsBack key .null →
      ManualRun config (tree.delete config.jsonLen key)
  | flush {tree : LsmTree} (existing : List SstableName) (info : TableInfo)
      (outcome : FlushOutcome) :
      ManualRun config tree →
      ManualRun config (tree.flushMemtableInternal existing info outcome).1
  | compactAll {tree : LsmTree} (existing : List SstableName)
      (info : TableInfo) (outcome : FlushOutcome) (output : OutputFiles) :
      ManualRun config tree →
      FreshOutputs config output
        (tree.flushMemtableInternal existing info outcome).1.levels →
      ManualRun config
        (tree.compactAll config existing info outcome output).1
  | reopen {tree : LsmTree} (active : Memtable) (files : List SSTable)
      (torn : List SstableName) (sequenceFile : Nat) :
      ManualRun config tree → active.ReadsBack →
      files.Subperm (tree.levels 0 ++ tree.levels 1) →
      (∀ entry ∈ allEntries files, entry.timestamp < sequenceFile) →
      ManualRun config (tree.reopen active files torn sequenceFile)

section

variable {config : CompactionConfig} {output : OutputFiles} {tree : LsmTree}
variable {existing : List SstableName} {info : TableInfo}
variable {outcome : FlushOutcome}

/-- After the flush a manual compaction merges the levels or changes
nothing. -/
theorem LsmTree.compactAll_cases
    (config : CompactionConfig) (existing : List SstableName)
    (info : TableInfo) (outcome : FlushOutcome) (output : OutputFiles)
    (tree : LsmTree) :
    (tree.compactAll config existing info outcome output).1 =
        (tree.flushMemtableInternal existing info outcome).1 ∨
      ∃ levels, F4kvsLsm.compactAll config output
          (tree.flushMemtableInternal existing info outcome).1.levels =
            .ok levels ∧
        (tree.compactAll config existing info outcome output).1 =
          { (tree.flushMemtableInternal existing info outcome).1 with
            levels := levels } := by
  unfold LsmTree.compactAll
  dsimp only
  split
  · cases merged : F4kvsLsm.compactAll config output
        (tree.flushMemtableInternal existing info outcome).1.levels with
    | ok levels => exact Or.inr ⟨levels, rfl, rfl⟩
    | error failure => exact Or.inl rfl
  · exact Or.inl rfl

/-- The tables of level 1 have one order by their largest keys. -/
theorem sortLeveled_eq_of_perm
    {files files' : List SSTable} (leveled : Leveled files')
    (same : files.Perm files') : sortLeveledSstables files = files' := by
  have sorted := sortLeveledSstables_sorted files
  have listed : (sortLeveledSstables files).Perm files' :=
    (List.perm_insertionSort _ files).trans same
  have different : (files'.map (·.largestKey)).Nodup := by
    rw [List.Nodup, List.pairwise_map]
    exact leveled.largest_lt.imp fun less => less.ne
  apply listed.eq_of_pairwise _ sorted leveled.largestSorted
  intro first second firstMember secondMember low high
  exact List.inj_on_of_nodup_map different (listed.subset firstMember)
    secondMember (le_antisymm low high)

/-- The counter resumes above the number of every flushed file. -/
theorem lt_loadExistingSstables_of_flushSequence
    {names : List SstableName} {name : SstableName} {sequence : Nat}
    (member : name ∈ names) (flush : name.flushSequence = some sequence)
    (files : List SSTable) (sequenceFile : Nat) :
    sequence < (loadExistingSstables names files sequenceFile).2 := by
  have bound : sequence ≤ maxFlushSeq names :=
    HighWater.le_highest (List.mem_filterMap.mpr ⟨name, member, flush⟩)
  rw [loadExistingSstables]
  simp only [lt_max_iff]
  left
  omega

theorem LsmTree.Invariant.found
    (invariant : tree.Invariant config) {files : List SSTable}
    (listed : files.Subperm (tree.levels 0 ++ tree.levels 1)) (level : Nat) :
    (files.filter fun table => table.name.level = level).Subperm
      (tree.levels level) := by
  have own : ∀ other, (tree.levels other).filter
      (fun table => table.name.level = level) =
        if other = level then tree.levels other else [] := by
    intro other
    have placed := invariant.placed other
    by_cases same : other = level
    · rw [if_pos same]
      apply List.filter_eq_self.mpr
      exact fun table member =>
        decide_eq_true ((placed table member).trans same)
    · rw [if_neg same]
      apply List.filter_eq_nil_iff.mpr
      intro table member
      rw [placed table member, decide_eq_true_eq]
      exact same
  have part := listed.filter fun table => decide (table.name.level = level)
  rw [List.filter_append, own 0, own 1] at part
  match level with
  | 0 =>
      rw [if_pos rfl, if_neg Nat.one_ne_zero, List.append_nil] at part
      exact part
  | 1 =>
      rw [if_neg Nat.zero_ne_one, if_pos rfl, List.nil_append] at part
      exact part
  | level + 2 =>
      rw [if_neg (by omega), if_neg (by omega)] at part
      rw [invariant.above level]
      exact part

theorem Leveled.sublist
    {files part : List SSTable} (leveled : Leveled files)
    (kept : part.Sublist files) : Leveled part where
  wellFormed := fun table member =>
    leveled.wellFormed table (kept.subset member)
  ordered := leveled.ordered.sublist (kept.flatMap SSTable.entries)

theorem allEntries_sub {files part : List SSTable} (sub : part ⊆ files) :
    ∀ entry ∈ allEntries part, entry ∈ allEntries files := by
  intro entry member
  obtain ⟨table, inPart, inTable⟩ := mem_allEntries.mp member
  exact mem_allEntries.mpr ⟨table, sub inPart, inTable⟩

/-- A restart keeps the invariant. -/
theorem LsmTree.Invariant.reopen
    (invariant : tree.Invariant config) (active : Memtable)
    {files : List SSTable} (torn : List SstableName) {sequenceFile : Nat}
    (listed : files.Subperm (tree.levels 0 ++ tree.levels 1))
    (marked : ∀ entry ∈ allEntries files, entry.timestamp < sequenceFile) :
    (tree.reopen active files torn sequenceFile).Invariant config := by
  have loaded : ∀ level, (tree.reopen active files torn sequenceFile).levels
      level = loadLevel files level := fun _ => rfl
  have level0 : (loadLevel files 0).Subperm (tree.levels 0) :=
    invariant.found listed 0
  obtain ⟨level1, found1, kept1⟩ := invariant.found listed 1
  have leveled1 := invariant.level1.sublist kept1
  have loaded1 : loadLevel files 1 = level1 :=
    sortLeveled_eq_of_perm leveled1 found1.symm
  have sub0 := allEntries_sub level0.subset
  have sub1 := allEntries_sub kept1.subset
  constructor
  case level0 =>
    exact fun table member => invariant.level0 table (level0.subset member)
  case level1 =>
    rw [loaded, loaded1]
    exact leveled1
  case live =>
    rw [loaded, loaded1]
    exact fun entry member => invariant.live entry (sub1 entry member)
  case above =>
    intro level
    have none := invariant.found listed (level + 2)
    rw [invariant.above level, List.subperm_nil] at none
    rw [loaded, loadLevel, if_neg (by omega), none]
    rfl
  case single =>
    intro few
    rw [invariant.single few] at kept1
    rw [loaded, loaded1]
    exact List.sublist_nil.mp kept1
  case distinct => exact invariant.distinct.mono sub0
  case newer =>
    rw [loaded, loaded1]
    intro old oldMember new newMember sameKey
    exact invariant.newer old (sub1 old oldMember) new (sub0 new newMember)
      sameKey
  case stamped =>
    intro entry member
    have onDisk : entry ∈ allEntries files := by
      obtain ⟨table, inLevels, inTable⟩ := mem_allEntries.mp member
      apply mem_allEntries.mpr
      refine ⟨table, ?_, inTable⟩
      simp only [loaded, List.mem_append, mem_loadLevel] at inLevels
      rcases inLevels with top | low
      · exact top.1
      · exact low.1
    exact (marked entry onDisk).trans_le (le_max_right _ _)
  case names0 =>
    obtain ⟨part, found0, kept0⟩ := level0
    exact (found0.symm.map SSTable.name).nodup_iff.mpr
      ((kept0.map SSTable.name).nodup invariant.names0)
  case names1 =>
    rw [loaded, loaded1]
    exact (kept1.map SSTable.name).nodup invariant.names1
  case flushNames =>
    intro table member level sequence name
    rw [loaded, mem_loadLevel] at member
    have onDisk := member.1
    apply lt_loadExistingSstables_of_flushSequence
    · exact List.mem_append_left _ (List.mem_map_of_mem onDisk)
    · rw [name]
      rfl
  case placed =>
    intro level table member
    rw [loaded, mem_loadLevel] at member
    exact member.2

theorem ManualRun.invariant (run : ManualRun config tree) :
    tree.Invariant config := by
  induction run with
  | empty => exact LsmTree.empty_invariant config
  | put key value _ _ inductionHypothesis =>
      exact inductionHypothesis.advance _ _ le_rfl
  | delete key _ _ inductionHypothesis =>
      exact inductionHypothesis.advance _ _ le_rfl
  | flush existing info outcome _ inductionHypothesis =>
      exact inductionHypothesis.flush existing info outcome
  | @compactAll tree existing info outcome output _ fresh
      inductionHypothesis =>
      have flushed := inductionHypothesis.flush existing info outcome
      rcases LsmTree.compactAll_cases config existing info outcome output
        tree with same | ⟨levels, merged, after⟩
      · rw [same]
        exact flushed
      · rw [after]
        exact flushed.compactAll fresh merged
  | reopen active files torn sequenceFile _ _ listed marked
      inductionHypothesis =>
      exact inductionHypothesis.reopen active torn listed marked

theorem LsmTree.ReadsBack.reopen
    (readsBack : tree.ReadsBack) {active : Memtable}
    (replayed : active.ReadsBack) {files : List SSTable}
    (listed : files.Subperm (tree.levels 0 ++ tree.levels 1))
    (torn : List SstableName) (sequenceFile : Nat) :
    (tree.reopen active files torn sequenceFile).ReadsBack where
  memtables := List.forall_mem_singleton.mpr replayed
  tables := by
    intro level table member
    rcases List.mem_append.mp (listed.subset (mem_loadLevel.mp member).1)
      with top | low
    · exact readsBack.tables 0 table top
    · exact readsBack.tables 1 table low

theorem LsmTree.ReadsBack.compactAllCall
    (readsBack : tree.ReadsBack) (existing : List SstableName)
    (info : TableInfo) (outcome : FlushOutcome) (output : OutputFiles) :
    (tree.compactAll config existing info outcome output).1.ReadsBack := by
  have flushed := readsBack.flush existing info outcome
  rcases LsmTree.compactAll_cases config existing info outcome output tree
    with same | ⟨levels, merged, after⟩
  · rw [same]
    exact flushed
  · rw [after]
    exact flushed.compactAll merged

theorem ManualRun.readsBack (run : ManualRun config tree) :
    tree.ReadsBack := by
  induction run with
  | empty => exact LsmTree.empty_readsBack
  | put key value _ written inductionHypothesis =>
      exact inductionHypothesis.put written _
  | delete key _ written inductionHypothesis =>
      exact inductionHypothesis.delete written _
  | flush existing info outcome _ inductionHypothesis =>
      exact inductionHypothesis.flush existing info outcome
  | compactAll existing info outcome output _ _ inductionHypothesis =>
      exact inductionHypothesis.compactAllCall existing info outcome output
  | reopen active files torn sequenceFile _ replayed listed _
      inductionHypothesis =>
      exact inductionHypothesis.reopen replayed listed torn sequenceFile

/-! ## What the merge keeps -/

/-- The merge of levels 0 and 1 shows what they showed. -/
theorem LsmTree.Invariant.getFromSstables_compactAll
    (invariant : tree.Invariant config) {levels : Nat → List SSTable}
    (merged : F4kvsLsm.compactAll config output tree.levels = .ok levels)
    (key : String) :
    getFromSstables config.levelCount levels key =
      getFromSstables config.levelCount tree.levels key := by
  rcases invariant.compactAll_cases merged with same | ⟨enough, whole⟩
  · rw [same]
  · have count : config.levelCount = config.levelCount - 1 + 1 := by
      omega
    have level0 : levels 0 = [] := by
      rw [whole, Function.update_of_ne (by omega), Function.update_self]
    have level1 : levels 1 = mergedTables config output 1
        (tree.levels 0 ++ tree.levels 1) := by
      rw [whole, Function.update_self]
    have above : ∀ level, levels (level + 2) = [] := by
      intro level
      rw [whole, Function.update_of_ne (by omega),
        Function.update_of_ne (by omega), invariant.above level]
    calc getFromSstables config.levelCount levels key
        = (getFromLevel 1 (levels 1) key).bind SSTableEntry.visible := by
          have nothing : getFromLevel0 (levels 0) key = none := by
            rw [level0]
            rfl
          rw [count, getFromSstables_succ,
            getBelow_eq above (fun zero => by omega), nothing,
            Option.none_or]
      _ = (tree.newestVersion key).bind SSTableEntry.visible := by
          rw [level1]
          exact visible_mergedTables invariant.distinctBoth config output 1
            key
      _ = getFromSstables config.levelCount tree.levels key := by
          rw [invariant.getFromSstables_eq count, invariant.newestVersion_eq]

/-- Every manual compaction leaves every read as the flush left it. -/
theorem LsmTree.Invariant.get_compactAll
    (invariant : tree.Invariant config) (existing : List SstableName)
    (info : TableInfo) (outcome : FlushOutcome) (output : OutputFiles)
    (key : String) :
    (tree.compactAll config existing info outcome output).1.get
        config.levelCount key =
      (tree.flushMemtableInternal existing info outcome).1.get
        config.levelCount key := by
  have flushed := invariant.flush existing info outcome
  rcases LsmTree.compactAll_cases config existing info outcome output tree
    with same | ⟨levels, merged, after⟩
  · rw [same]
  · rw [after]
    exact get_eq_of_memtable fun _ =>
      flushed.getFromSstables_compactAll merged key

/-- With no memtable parked by a failure, a flush that succeeds changes no
read. -/
theorem LsmTree.Invariant.get_flush
    (invariant : tree.Invariant config) (levels : 0 < config.levelCount)
    (noneParked : tree.immutables = []) (existing : List SstableName)
    (info : TableInfo) (key : String) :
    (tree.flushMemtableInternal existing info .done).1.get config.levelCount
        key = tree.get config.levelCount key := by
  have missing : ∀ value : Option Value,
      memtableValue [tree.active] key = value ↔
        tree.active.data[key]? = value := by
    intro value
    rw [memtableValue_cons]
    cases tree.active.data[key]? <;> rfl
  have nothing : memtableValue [Memtable.new] key = none := by
    rw [memtableValue_cons, Memtable.new_get]
    rfl
  unfold LsmTree.flushMemtableInternal
  rw [LsmTree.get_eq, LsmTree.get_eq, noneParked]
  by_cases nonempty : tree.active.entryCount > 0
  · rw [if_pos nonempty]
    simp only [nothing]
    cases held : tree.active.data[key]? with
    | some value =>
        rw [(missing _).mpr held]
        exact invariant.getFromSstables_publish levels existing info held
    | none =>
        rw [(missing _).mpr held]
        exact invariant.getFromSstables_publish_other existing info nonempty
          held
  · rw [if_neg nonempty,
      (missing _).mpr (Memtable.get_of_entryCount nonempty key)]
    simp only [nothing]

/-- A compaction that succeeds was preceded by a flush that succeeded, in an
engine with at least two levels. -/
theorem LsmTree.compactAll_succeeded
    (success :
      (tree.compactAll config existing info outcome output).2 = true) :
    2 ≤ config.levelCount ∧
      (tree.flushMemtableInternal existing info outcome).1 =
        (tree.flushMemtableInternal existing info .done).1 := by
  unfold LsmTree.compactAll at success
  dsimp only at success
  split at success
  · case isTrue flushed =>
      constructor
      · by_contra few
        have refused : F4kvsLsm.compactAll config output
            (tree.flushMemtableInternal existing info outcome).1.levels =
              .error (.internal
                "compact_all needs at least 2 levels for L0→L1") := by
          rw [F4kvsLsm.compactAll, if_pos (by omega)]
        rw [refused] at success
        exact absurd success (by simp)
      · unfold LsmTree.flushMemtableInternal at flushed ⊢
        by_cases nonempty : tree.active.entryCount > 0
        · rw [if_pos nonempty] at flushed
          cases outcome with
          | done => rfl
          | failedWriting => exact absurd flushed (by simp)
          | failedOpening => exact absurd flushed (by simp)
        · rw [if_neg nonempty, if_neg nonempty]
  · case isFalse failed => exact absurd success failed

end

/-- In every run, a manual compaction leaves every read as it is, and after it
level 1 is ordered by the largest keys, its tables are disjoint and it has no
tombstone.  The flush that precedes the merge changes no read either when it
succeeds and no memtable was parked by an earlier failure. -/
theorem compactAll_transparent
    (config : CompactionConfig) (tree : LsmTree)
    (run : ManualRun config tree) (existing : List SstableName)
    (info : TableInfo) (outcome : FlushOutcome) (output : OutputFiles)
    (fresh : FreshOutputs config output
      (tree.flushMemtableInternal existing info outcome).1.levels) :
    let after := tree.compactAll config existing info outcome output
    (∀ key, after.1.getChecked config.levelCount key =
      (tree.flushMemtableInternal existing info outcome).1.getChecked
        config.levelCount key) ∧
    (after.2 = true → tree.immutables = [] →
      ∀ key, after.1.getChecked config.levelCount key =
        tree.getChecked config.levelCount key) ∧
    LargestSorted (after.1.levels 1) ∧
    (after.1.levels 1).Pairwise
      (fun first second => first.largestKey < second.smallestKey) ∧
    ∀ entry ∈ allEntries (after.1.levels 1), entry.deleted = false := by
  have invariant := run.invariant
  have compacted := run.compactAll existing info outcome output fresh
  have done := compacted.invariant
  have merge := invariant.get_compactAll existing info outcome output
  have before := LsmTree.getChecked_eq run.readsBack.tables
  have between := LsmTree.getChecked_eq
    (run.readsBack.flush existing info outcome).tables
  have after := LsmTree.getChecked_eq compacted.readsBack.tables
  simp only [before, between, after]
  refine ⟨merge, ?_, done.level1.largestSorted, done.level1.disjoint,
    done.live⟩
  intro success noneParked key
  have succeeded := LsmTree.compactAll_succeeded success
  rw [merge, succeeded.2]
  exact invariant.get_flush (by omega) noneParked existing info key

theorem twoTables_run : ManualRun leveledConfig twoTables :=
  ((((ManualRun.empty.put "k" (.bool true) ⟨rfl, by decide⟩).flush []
    smallTable .done).put "a" (.bool true) ⟨rfl, by decide⟩).flush []
      smallTable .done)

theorem twoTables_compactAll_transparent :
    (twoTables.compactAll leveledConfig [] smallTable .done
        (outputFiles 10)).1.getChecked 7 "k" =
      twoTables.getChecked 7 "k" := by
  refine (compactAll_transparent leveledConfig twoTables twoTables_run []
    smallTable .done (outputFiles 10) ?_).2.1 rfl rfl "k"
  intro levels same
  rw [← Except.ok.inj same]
  decide

/-- The flush before the merge writes a JSON document into a table. -/
theorem compactAll_loses_json :
    let before := LsmTree.empty.put leveledConfig.jsonLen "k" (.json .null)
    let after := before.compactAll leveledConfig [] smallTable .done
      (outputFiles 10)
    after.2 = true ∧ before.getChecked 7 "k" = some (.json .null) ∧
      after.1.getChecked 7 "k" = none :=
  ⟨rfl, rfl, rfl⟩

end F4kvsLsm
