import F4kvsLsm.Compaction.CheckedMerge
import F4kvsLsm.Compaction.Level

/-!
# When a compaction leaves every read unchanged

Runs put, delete, flush and compact in any order.  In every state of a run in
which no merge above level 0 has skipped later tables, a compaction keeps all
reads exactly when it drops no tombstone that still hides something.
-/

namespace F4kvsLsm

open Versions

/-! ## Conditions -/

/-- A merge above level 0 takes the last tables of the level, so that the
merged tables may be put at its end. -/
def MergesEnd (config : CompactionConfig) (order : List Nat)
    (tree : LsmTree) : Prop :=
  ∀ level, levelToCompact config order tree.levels = some (level + 1) →
    ∃ front, tree.levels (level + 1) =
      front ++ compactedGroup config order tree.levels (level + 1)

/-- A merge of level 0 drops no tombstone that hides something from a reader.
Below the tombstone there is another one in a table that is not merged, or
nothing in level 0 and nothing in level 1. -/
def KeepsDeletions (config : CompactionConfig) (order : List Nat)
    (tree : LsmTree) : Prop :=
  let remaining := allEntries (remainingTables (tree.levels 0)
    (compactedGroup config order tree.levels 0))
  levelToCompact config order tree.levels = some 0 →
    ∀ key tombstone,
      memtableValue (tree.active :: tree.immutables) key = none →
      latest (allEntries (tree.levels 0)) key = some tombstone →
      tombstone.deleted = true → tombstone ∉ remaining →
      (∃ older, latest remaining key = some older ∧ older.deleted = true) ∨
        latest remaining key = none ∧
          ∀ entry ∈ allEntries (tree.levels 1), entry.key ≠ key

/-- The clock gives the new tables of a compaction names of their own. -/
def FreshNames (config : CompactionConfig) (order : List Nat)
    (output : OutputFiles) (tree : LsmTree) : Prop :=
  ∀ level, ((compactIfNeeded config order output tree.levels level).map
    (·.name)).Nodup

/-- The names of the tables that `compactAll` writes. -/
def FreshOutputs (config : CompactionConfig) (output : OutputFiles)
    (levels : Nat → List SSTable) : Prop :=
  ∀ levels', compactAll config output levels = .ok levels' →
    ((levels' 1).map (·.name)).Nodup

/-- The states of the engine under puts, deletes, flushes and compactions,
with every merge above level 0 at the end of its level.  Every record of a
table can be read back.  The engine may have been opened on the tables of an
earlier run. -/
inductive Reachable (config : CompactionConfig) : LsmTree → Prop
  | opened {tree : LsmTree} :
      tree.Invariant config → tree.ReadsBack → Reachable config tree
  | put {tree : LsmTree} (key : String) (value : Value) :
      Reachable config tree → ReadsBack key value →
      Reachable config (tree.put config.jsonLen key value)
  | delete {tree : LsmTree} (key : String) :
      Reachable config tree → ReadsBack key .null →
      Reachable config (tree.delete config.jsonLen key)
  | flush {tree : LsmTree} (existing : List SstableName) (info : TableInfo)
      (outcome : FlushOutcome) :
      Reachable config tree →
      Reachable config (tree.flushMemtableInternal existing info outcome).1
  | compactAll {tree : LsmTree} {levels : Nat → List SSTable}
      (output : OutputFiles) :
      Reachable config tree → FreshOutputs config output tree.levels →
      F4kvsLsm.compactAll config output tree.levels = .ok levels →
      Reachable config { tree with levels := levels }
  | compactIfNeeded {tree : LsmTree} (order : List Nat)
      (output : OutputFiles) :
      Reachable config tree → FreshNames config order output tree →
      MergesEnd config order tree →
      Reachable config { tree with
        levels := F4kvsLsm.compactIfNeeded config order output tree.levels }

/-! ## What a compaction does to the levels -/

section

variable {config : CompactionConfig} {order : List Nat}
variable {output : OutputFiles} {tree : LsmTree}

theorem levelToCompact_spec
    {levels : Nat → List SSTable} {level : Nat}
    (chosen : levelToCompact config order levels = some level) :
    level < config.levelCount ∧ levels level ≠ [] := by
  rw [levelToCompact] at chosen
  have inRange := List.mem_of_find?_eq_some chosen
  have due := List.find?_some chosen
  refine ⟨List.mem_range.mp inRange, fun empty => ?_⟩
  simp [shouldCompactLevel, empty] at due

/-- Levels above 1 are empty, so they are never chosen. -/
theorem LsmTree.Invariant.level_le_one
    (invariant : tree.Invariant config) {level : Nat}
    (chosen : levelToCompact config order tree.levels = some level) :
    level = 0 ∨ level = 1 := by
  obtain ⟨-, nonempty⟩ := levelToCompact_spec chosen
  match level, nonempty with
  | 0, _ => exact Or.inl rfl
  | 1, _ => exact Or.inr rfl
  | level + 2, nonempty => exact absurd (invariant.above level) nonempty

theorem compactIfNeeded_of_some
    {levels : Nat → List SSTable} {level : Nat}
    (chosen : levelToCompact config order levels = some level) :
    compactIfNeeded config order output levels =
      Function.update levels level
        (compactLevel config order output level (levels level)) := by
  rw [compactIfNeeded, chosen]

/-- With nothing to merge the level stays as it is. -/
theorem compactLevel_eq
    (config : CompactionConfig) (order : List Nat) (output : OutputFiles)
    (levels : Nat → List SSTable) (level : Nat) :
    compactLevel config order output level (levels level) =
        remainingTables (levels level)
          (compactedGroup config order levels level) ++
        mergedTables config output level
          (compactedGroup config order levels level) := by
  rw [compactLevel, ← compactedGroup]
  split
  · case isTrue empty =>
      rw [List.isEmpty_iff] at empty
      rw [empty]
      simp [remainingTables, mergedTables, createNewSstables, cutEntries,
        deduplicateEntries, mergeSstablesSafe, sortEntries, dedupLoop]
  · rfl

theorem compactedGroup_sub
    (config : CompactionConfig) (order : List Nat)
    (levels : Nat → List SSTable) (level : Nat) :
    ∀ table ∈ compactedGroup config order levels level,
      table ∈ levels level :=
  fun _ member => selected_sub config order level member

/-! ## The invariant -/

theorem LsmTree.Invariant.compactLevel0
    (invariant : tree.Invariant config)
    (names : ((compactLevel config order output 0 (tree.levels 0)).map
      (·.name)).Nodup) :
    LsmTree.Invariant config
      { tree with
        levels := Function.update tree.levels 0
          (compactLevel config order output 0 (tree.levels 0)) } := by
  rw [compactLevel_eq] at names ⊢
  have sub : ∀ entry, entry ∈ allEntries (remainingTables (tree.levels 0)
      (compactedGroup config order tree.levels 0) ++
        mergedTables config output 0
          (compactedGroup config order tree.levels 0)) →
      entry ∈ allEntries (tree.levels 0) := by
    intro entry member
    rw [allEntries_append] at member
    exact (partialMerge_compacted config output 0 invariant.distinct
      invariant.names0 (compactedGroup_sub config order tree.levels 0)).sub
        member
  have others : ∀ (tables : List SSTable) (level : Nat),
      Function.update tree.levels 0 tables (level + 1) =
        tree.levels (level + 1) :=
    fun _ _ => Function.update_of_ne (by omega) ..
  constructor
  case level0 =>
    intro table member
    simp only [Function.update_self] at member
    rcases List.mem_append.mp member with stays | new
    · exact invariant.level0 table
        ((remainingTables_sublist _ _).subset stays)
    · exact (mergedTables_leveled _).wellFormed table new
  case level1 =>
    simp only [others]
    exact invariant.level1
  case live =>
    simp only [others]
    exact invariant.live
  case above =>
    intro level
    simp only [others]
    exact invariant.above level
  case single =>
    simp only [others]
    exact invariant.single
  case distinct =>
    simp only [Function.update_self]
    exact invariant.distinct.mono sub
  case newer =>
    simp only [Function.update_self, others]
    exact fun old oldMember new newMember =>
      invariant.newer old oldMember new (sub new newMember)
  case stamped =>
    intro entry member
    simp only [Function.update_self, others] at member
    rw [allEntries_append, List.mem_append] at member
    rcases member with top | low
    · exact invariant.stamped0 (sub entry top)
    · exact invariant.stamped1 low
  case names0 =>
    simp only [Function.update_self]
    exact names
  case names1 =>
    simp only [others]
    exact invariant.names1
  case flushNames =>
    intro table member level sequence name
    simp only [Function.update_self] at member
    rcases List.mem_append.mp member with stays | new
    · exact invariant.flushNames table
        ((remainingTables_sublist _ _).subset stays) level sequence name
    · rw [mergedTables, createNewSstables, List.mem_mapIdx] at new
      obtain ⟨index, bound, rfl⟩ := new
      exact absurd name (by simp)
  case placed =>
    intro level table member
    cases level with
    | zero =>
        simp only [Function.update_self] at member
        rcases List.mem_append.mp member with stays | new
        · exact invariant.placed 0 table
            ((remainingTables_sublist _ _).subset stays)
        · exact mergedTables_level new
    | succ level =>
        simp only [others] at member
        exact invariant.placed _ table member

theorem LsmTree.Invariant.replaceLevel1
    (invariant : tree.Invariant config) {tables : List SSTable}
    (leveled : Leveled tables)
    (same : ∀ entry, entry ∈ allEntries tables ↔
      entry ∈ allEntries (tree.levels 1))
    (single : config.levelCount < 2 → tables = [])
    (names : (tables.map (·.name)).Nodup)
    (placed : ∀ table ∈ tables, table.name.level = 1) :
    LsmTree.Invariant config
      { tree with levels := Function.update tree.levels 1 tables } := by
  have bottom : Function.update tree.levels 1 tables 0 = tree.levels 0 :=
    Function.update_of_ne (by omega) ..
  have above : ∀ level, Function.update tree.levels 1 tables (level + 2) =
      tree.levels (level + 2) :=
    fun level => Function.update_of_ne (by omega) ..
  constructor
  case level0 =>
    simp only [bottom]
    exact invariant.level0
  case level1 =>
    simp only [Function.update_self]
    exact leveled
  case live =>
    simp only [Function.update_self, same]
    exact invariant.live
  case above =>
    intro level
    simp only [above]
    exact invariant.above level
  case single =>
    simp only [Function.update_self]
    exact single
  case distinct =>
    simp only [bottom]
    exact invariant.distinct
  case newer =>
    simp only [Function.update_self, bottom, same]
    exact invariant.newer
  case stamped =>
    intro entry member
    simp only [Function.update_self, bottom] at member
    rw [allEntries_append, List.mem_append, same] at member
    rcases member with top | low
    · exact invariant.stamped0 top
    · exact invariant.stamped1 low
  case names0 =>
    simp only [bottom]
    exact invariant.names0
  case names1 =>
    simp only [Function.update_self]
    exact names
  case flushNames =>
    simp only [bottom]
    exact invariant.flushNames
  case placed =>
    intro level table member
    match level with
    | 0 =>
        simp only [bottom] at member
        exact invariant.placed 0 table member
    | 1 =>
        simp only [Function.update_self] at member
        exact placed table member
    | level + 2 =>
        simp only [above] at member
        exact invariant.placed _ table member

theorem LsmTree.Invariant.compactLevel1
    (invariant : tree.Invariant config)
    (chosen : levelToCompact config order tree.levels = some 1)
    (mergesEnd : MergesEnd config order tree)
    (names : ((compactLevel config order output 1 (tree.levels 1)).map
      (·.name)).Nodup) :
    Leveled (compactLevel config order output 1 (tree.levels 1)) ∧
      (∀ entry,
        entry ∈ allEntries
          (compactLevel config order output 1 (tree.levels 1)) ↔
        entry ∈ allEntries (tree.levels 1)) ∧
      LsmTree.Invariant config
        { tree with
          levels := Function.update tree.levels 1
            (compactLevel config order output 1 (tree.levels 1)) } := by
  obtain ⟨front, split⟩ := mergesEnd 0 chosen
  rw [Nat.zero_add] at split
  have leveled := invariant.level1
  have live := invariant.live
  have names1 := invariant.names1
  rw [compactLevel_eq] at names ⊢
  generalize compactedGroup config order tree.levels 1 = group at *
  have kept : Leveled (remainingTables (tree.levels 1) group ++
      mergedTables config output 1 group) := by
    rw [split] at leveled names1 ⊢
    exact leveled_compacted leveled names1
  have same : ∀ entry, entry ∈ allEntries (remainingTables (tree.levels 1)
      group ++ mergedTables config output 1 group) ↔
      entry ∈ allEntries (tree.levels 1) := by
    intro entry
    rw [split] at leveled live names1 ⊢
    exact mem_leveled_compacted leveled live names1
  refine ⟨kept, same, invariant.replaceLevel1 kept same ?_ names ?_⟩
  · intro single
    have inRange := (levelToCompact_spec chosen).1
    omega
  · intro table member
    rcases List.mem_append.mp member with stays | new
    · exact invariant.placed 1 table
        ((remainingTables_sublist _ _).subset stays)
    · exact mergedTables_level new

theorem LsmTree.Invariant.compactIfNeeded
    (invariant : tree.Invariant config)
    (fresh : FreshNames config order output tree)
    (mergesEnd : MergesEnd config order tree) :
    LsmTree.Invariant config
      { tree with
        levels := compactIfNeeded config order output tree.levels } := by
  cases chosen : levelToCompact config order tree.levels with
  | none =>
      have unchanged : F4kvsLsm.compactIfNeeded config order output
          tree.levels = tree.levels := by
        rw [F4kvsLsm.compactIfNeeded, chosen]
      rw [unchanged]
      exact invariant
  | some level =>
      have names := fresh level
      rw [compactIfNeeded_of_some chosen] at names ⊢
      rw [Function.update_self] at names
      rcases invariant.level_le_one chosen with rfl | rfl
      · exact invariant.compactLevel0 names
      · exact (invariant.compactLevel1 chosen mergesEnd names).2.2

theorem LsmTree.Invariant.distinctBoth (invariant : tree.Invariant config) :
    DistinctVersions (allEntries (tree.levels 0 ++ tree.levels 1)) := by
  intro first firstMember second secondMember sameKey sameStamp
  rw [allEntries_append, List.mem_append] at firstMember secondMember
  rcases firstMember with top | low <;> rcases secondMember with top' | low'
  · exact invariant.distinct first top second top' sameKey sameStamp
  · have older := invariant.newer second low' first top sameKey.symm
    omega
  · have older := invariant.newer first low second top' sameKey
    omega
  · exact invariant.level1.eq_of_key_eq low low' sameKey

theorem validSstables_eq
    {files : List SSTable} (wellFormed : ∀ table ∈ files, table.WellFormed) :
    validSstablesForCompact files = files := by
  refine List.filter_eq_self.mpr fun table member => ?_
  have whole := wellFormed table member
  rw [decide_eq_true_eq]
  exact ⟨whole.sized, whole.nonempty⟩

theorem remainingTables_eq_nil
    {files inputs : List SSTable} (all : ∀ table ∈ files, table ∈ inputs) :
    remainingTables files inputs = [] := by
  refine List.filter_eq_nil_iff.mpr fun table member => ?_
  rw [Bool.not_eq_true', Bool.not_eq_false, List.any_eq_true]
  exact ⟨table, all table member, by simp⟩

theorem sortLeveled_eq_self
    {files : List SSTable} (leveled : Leveled files) :
    sortLeveledSstables files = files :=
  List.Pairwise.insertionSort_eq
    (leveled.largest_lt.imp fun less => Or.inl less)

/-- `compactAll` changes nothing, or empties level 0 and puts the merge of
both levels into level 1. -/
theorem LsmTree.Invariant.compactAll_cases
    (invariant : tree.Invariant config) {levels : Nat → List SSTable}
    (compacted : compactAll config output tree.levels = .ok levels) :
    levels = tree.levels ∨
      2 ≤ config.levelCount ∧
        levels = Function.update (Function.update tree.levels 0 []) 1
          (mergedTables config output 1 (tree.levels 0 ++ tree.levels 1)) := by
  rw [compactAll] at compacted
  split at compacted
  · exact absurd compacted (by simp)
  · case isFalse enough =>
      rw [validSstables_eq invariant.level0,
        validSstables_eq invariant.level1.wellFormed] at compacted
      simp only at compacted
      split at compacted
      · exact Or.inl (Except.ok.inj compacted).symm
      · split at compacted
        · exact Or.inl (Except.ok.inj compacted).symm
        · right
          refine ⟨by omega, ?_⟩
          rw [← Except.ok.inj compacted, concurrentTables, concurrentTables,
            remainingTables_eq_nil fun table member =>
              List.mem_append_left _ member,
            remainingTables_eq_nil fun table member =>
              List.mem_append_right _ member,
            List.append_nil, sortLeveled_eq_self (mergedTables_leveled _)]

theorem LsmTree.Invariant.compactAll
    (invariant : tree.Invariant config)
    (fresh : FreshOutputs config output tree.levels)
    {levels : Nat → List SSTable}
    (compacted : compactAll config output tree.levels = .ok levels) :
    LsmTree.Invariant config { tree with levels := levels } := by
  have names := fresh levels compacted
  rcases invariant.compactAll_cases compacted with same | ⟨enough, merged⟩
  · rw [same]
    exact invariant
  · have level0 : levels 0 = [] := by
      rw [merged, Function.update_of_ne (by omega), Function.update_self]
    have level1 : levels 1 = mergedTables config output 1
        (tree.levels 0 ++ tree.levels 1) := by
      rw [merged, Function.update_self]
    have above : ∀ level, levels (level + 2) = tree.levels (level + 2) := by
      intro level
      rw [merged, Function.update_of_ne (by omega),
        Function.update_of_ne (by omega)]
    have distinct := invariant.distinctBoth
    constructor
    case level0 => simp [level0]
    case level1 =>
      simp only [level1]
      exact mergedTables_leveled _
    case live =>
      simp only [level1]
      exact fun entry member => ((mem_mergedTables distinct).mp member).2
    case above =>
      intro level
      simp only [above]
      exact invariant.above level
    case single =>
      intro single
      omega
    case distinct => simp [level0, DistinctVersions]
    case newer => simp [level0]
    case stamped =>
      intro entry member
      simp only [level0, level1, List.nil_append] at member
      exact invariant.stamped entry (mem_mergedTables_sub distinct member)
    case names0 => simp [level0]
    case names1 => exact names
    case flushNames => simp [level0]
    case placed =>
      intro level table member
      rcases level with _ | _ | level
      · simp [level0] at member
      · simp only [Nat.zero_add, level1] at member
        exact mergedTables_level member
      · simp only [above] at member
        exact invariant.placed _ table member

/-- Every state of a run satisfies the invariant. -/
theorem Reachable.invariant (reachable : Reachable config tree) :
    tree.Invariant config := by
  induction reachable with
  | opened invariant _ => exact invariant
  | put key value _ _ inductionHypothesis =>
      exact inductionHypothesis.advance _ _ le_rfl
  | delete key _ _ inductionHypothesis =>
      exact inductionHypothesis.advance _ _ le_rfl
  | flush existing info outcome _ inductionHypothesis =>
      exact inductionHypothesis.flush existing info outcome
  | compactAll output _ fresh compacted inductionHypothesis =>
      exact inductionHypothesis.compactAll fresh compacted
  | compactIfNeeded order output _ fresh mergesEnd inductionHypothesis =>
      exact inductionHypothesis.compactIfNeeded fresh mergesEnd

/-- In every state of a run the tables can be read. -/
theorem Reachable.readsBack (reachable : Reachable config tree) :
    tree.ReadsBack := by
  induction reachable with
  | opened _ readsBack => exact readsBack
  | put key value _ written inductionHypothesis =>
      exact inductionHypothesis.put written _
  | delete key _ written inductionHypothesis =>
      exact inductionHypothesis.delete written _
  | flush existing info outcome _ inductionHypothesis =>
      exact inductionHypothesis.flush existing info outcome
  | compactAll output _ _ compacted inductionHypothesis =>
      exact inductionHypothesis.compactAll compacted
  | compactIfNeeded order output _ _ _ inductionHypothesis =>
      exact inductionHypothesis.compactIfNeeded

end

end F4kvsLsm
