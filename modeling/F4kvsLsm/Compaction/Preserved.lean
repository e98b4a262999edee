import F4kvsLsm.Compaction.Correct

/-!
# Reads before and after a compaction

The levels below level 0 matter to a key only when level 0 has no version of
it left.  A merge of level 0 is therefore invisible exactly when it keeps
every tombstone that hides something, and a merge at the end of level 1 is
always invisible.
-/

namespace F4kvsLsm

open Versions

/-- What the levels below level 0 know about a key. -/
def getBelow (levelCount : Nat) (levels : Nat → List SSTable) (key : String) :
    Option SSTableEntry :=
  (List.range levelCount).findSome? fun level =>
    getFromLevel (level + 1) (levels (level + 1)) key

theorem getFromSstables_succ
    (levelCount : Nat) (levels : Nat → List SSTable) (key : String) :
    getFromSstables (levelCount + 1) levels key =
      ((getFromLevel0 (levels 0) key).or
        (getBelow levelCount levels key)).bind SSTableEntry.visible := by
  rw [getFromSstables, List.range_succ_eq_map, List.findSome?_cons]
  have rest : (List.map Nat.succ (List.range levelCount)).findSome?
      (fun level => getFromLevel level (levels level) key) =
        getBelow levelCount levels key := by
    rw [List.findSome?_map]
    rfl
  cases top : getFromLevel 0 (levels 0) key with
  | none =>
      have none0 : getFromLevel0 (levels 0) key = none := top
      rw [rest, none0, Option.none_or]
  | some entry =>
      have some0 : getFromLevel0 (levels 0) key = some entry := top
      rw [some0, Option.some_or]

theorem getFromLevel_succ_nil (level : Nat) (key : String) :
    getFromLevel (level + 1) [] key = none := rfl

theorem getBelow_eq
    {levelCount : Nat} {levels : Nat → List SSTable}
    (above : ∀ level, levels (level + 2) = [])
    (single : levelCount = 0 → levels 1 = []) (key : String) :
    getBelow levelCount levels key = getFromLevel 1 (levels 1) key := by
  cases levelCount with
  | zero =>
      rw [single rfl, getFromLevel_succ_nil]
      rfl
  | succ levelCount =>
      have rest : (List.map Nat.succ (List.range levelCount)).findSome?
          (fun level => getFromLevel (level + 1) (levels (level + 1))
            key) = none := by
        rw [List.findSome?_eq_none_iff]
        intro level member
        obtain ⟨below, -, rfl⟩ := List.mem_map.mp member
        rw [above below, getFromLevel_succ_nil]
      rw [getBelow, List.range_succ_eq_map, List.findSome?_cons, rest]
      cases getFromLevel (0 + 1) (levels (0 + 1)) key <;> rfl

/-- Reads go by what each level returns. -/
theorem getFromSstables_congr
    {levelCount : Nat} {levels levels' : Nat → List SSTable} {key : String}
    (same : ∀ level, getFromLevel level (levels' level) key =
      getFromLevel level (levels level) key) :
    getFromSstables levelCount levels' key =
      getFromSstables levelCount levels key := by
  rw [getFromSstables, getFromSstables]
  simp only [same]

section

variable {config : CompactionConfig} {order : List Nat}
variable {output : OutputFiles} {tree : LsmTree}

/-- Level 1 hides nothing: what it knows is live. -/
theorem LsmTree.Invariant.level1_visible_eq_none_iff
    (invariant : tree.Invariant config) (key : String) :
    (getFromLevel 1 (tree.levels 1) key).bind SSTableEntry.visible = none ↔
      ∀ entry ∈ allEntries (tree.levels 1), entry.key ≠ key := by
  cases found : getFromLevel 1 (tree.levels 1) key with
  | none =>
      simp only [Option.bind_none, true_iff]
      intro entry member sameKey
      have hit := (invariant.level1.getFromLevel_eq_some_iff 0).mpr
        ⟨member, sameKey⟩
      rw [found] at hit
      exact absurd hit (by simp)
  | some entry =>
      obtain ⟨member, sameKey⟩ :=
        (invariant.level1.getFromLevel_eq_some_iff 0).mp found
      have live := invariant.live entry member
      simp only [Option.bind_some, SSTableEntry.visible, live,
        Bool.false_eq_true, if_false, reduceCtorEq, false_iff, not_forall]
      exact ⟨entry, member, not_not.mpr sameKey⟩

theorem LsmTree.Invariant.getFromSstables_eq
    (invariant : tree.Invariant config) {levelCount : Nat}
    (count : config.levelCount = levelCount + 1) (key : String) :
    getFromSstables config.levelCount tree.levels key =
      ((latest (allEntries (tree.levels 0)) key).or
        (getFromLevel 1 (tree.levels 1) key)).bind SSTableEntry.visible := by
  have single : levelCount = 0 → tree.levels 1 = [] :=
    fun zero => invariant.single (by omega)
  rw [count, getFromSstables_succ, getBelow_eq invariant.above single,
    getFromLevel0_eq invariant.level0 invariant.distinct]

theorem get_eq_of_memtable
    {levels : Nat → List SSTable} {levelCount : Nat} {key : String}
    (sameTables : memtableValue (tree.active :: tree.immutables) key = none →
      getFromSstables levelCount levels key =
        getFromSstables levelCount tree.levels key) :
    LsmTree.get levelCount { tree with levels := levels } key =
      tree.get levelCount key := by
  rw [LsmTree.get_eq, LsmTree.get_eq]
  cases found : memtableValue (tree.active :: tree.immutables) key with
  | some value => rfl
  | none => exact sameTables found

/-- A compaction of level 0 is invisible exactly when it keeps deletions. -/
theorem LsmTree.Invariant.compactLevel0_get_iff
    (invariant : tree.Invariant config)
    (chosen : levelToCompact config order tree.levels = some 0)
    (fresh : FreshNames config order output tree) :
    (∀ key, LsmTree.get config.levelCount
        { tree with
          levels := F4kvsLsm.compactIfNeeded config order output tree.levels }
        key = tree.get config.levelCount key) ↔
      KeepsDeletions config order tree := by
  have names := fresh 0
  rw [compactIfNeeded_of_some chosen] at names ⊢
  rw [Function.update_self] at names
  have after := invariant.compactLevel0 names
  obtain ⟨levelCount, count⟩ : ∃ levelCount,
      config.levelCount = levelCount + 1 :=
    ⟨config.levelCount - 1, by
      have inRange := (levelToCompact_spec chosen).1
      omega⟩
  have readAfter : ∀ key, getFromSstables config.levelCount
      (Function.update tree.levels 0
        (compactLevel config order output 0 (tree.levels 0))) key =
        ((latest (allEntries
          (compactLevel config order output 0 (tree.levels 0))) key).or
            (getFromLevel 1 (tree.levels 1) key)).bind
              SSTableEntry.visible := by
    intro key
    have read := after.getFromSstables_eq count key
    simp only [Function.update_self] at read
    rwa [Function.update_of_ne (by omega)] at read
  have perKey := fun key => (partialMerge_compacted config output 0
    invariant.distinct invariant.names0
    (compactedGroup_sub config order tree.levels 0)).visible_iff key
    (getFromLevel 1 (tree.levels 1) key)
  simp only [← allEntries_append, ← compactLevel_eq, ← readAfter,
    ← invariant.getFromSstables_eq count,
    invariant.level1_visible_eq_none_iff] at perKey
  constructor
  · intro unchanged _ key tombstone unshadowed
    refine (perKey key).mp ?_ tombstone
    have read := unchanged key
    rw [LsmTree.get_eq, LsmTree.get_eq] at read
    simp only [unshadowed] at read
    exact read
  · intro keeps key
    refine get_eq_of_memtable fun unshadowed => ?_
    exact (perKey key).mpr fun tombstone =>
      keeps chosen key tombstone unshadowed

theorem LsmTree.Invariant.compactIfNeeded_reads_iff
    (invariant : tree.Invariant config)
    (fresh : FreshNames config order output tree)
    (mergesEnd : MergesEnd config order tree) :
    (∀ key, LsmTree.get config.levelCount
        { tree with
          levels := F4kvsLsm.compactIfNeeded config order output tree.levels }
        key = tree.get config.levelCount key) ↔
      KeepsDeletions config order tree := by
  cases chosen : levelToCompact config order tree.levels with
  | none =>
      have unchanged : F4kvsLsm.compactIfNeeded config order output tree.levels =
          tree.levels := by
        rw [F4kvsLsm.compactIfNeeded, chosen]
      rw [unchanged]
      refine ⟨fun _ zero => ?_, fun _ _ => rfl⟩
      rw [chosen] at zero
      exact absurd zero (by simp)
  | some level =>
      rcases invariant.level_le_one chosen with rfl | rfl
      · exact invariant.compactLevel0_get_iff chosen fresh
      · refine ⟨fun _ zero => ?_, fun _ key => ?_⟩
        · rw [chosen] at zero
          exact absurd zero (by simp)
        · have names := fresh 1
          rw [compactIfNeeded_of_some chosen, Function.update_self] at names
          obtain ⟨leveled, same, -⟩ :=
            invariant.compactLevel1 chosen mergesEnd names
          rw [compactIfNeeded_of_some chosen]
          refine get_eq_of_memtable fun _ => getFromSstables_congr fun level => ?_
          by_cases here : level = 1
          · subst here
            rw [Function.update_self]
            refine Option.ext fun entry => ?_
            rw [leveled.getFromLevel_eq_some_iff 0,
              invariant.level1.getFromLevel_eq_some_iff 0, same]
          · rw [Function.update_of_ne here]

end

/-- A compaction leaves all reads unchanged exactly when it keeps
deletions. -/
theorem compactIfNeeded_get_iff
    (config : CompactionConfig) (order : List Nat) (output : OutputFiles)
    (tree : LsmTree) (reachable : Reachable config tree)
    (fresh : FreshNames config order output tree)
    (mergesEnd : MergesEnd config order tree) :
    (∀ key, LsmTree.getChecked config.levelCount
        { tree with
          levels := compactIfNeeded config order output tree.levels } key =
        tree.getChecked config.levelCount key) ↔
      KeepsDeletions config order tree := by
  have readsBack := reachable.readsBack.tables
  have merged : ∀ level, ∀ table ∈ compactIfNeeded config order output
      tree.levels level, table.ReadsBack :=
    readsBack_compactIfNeeded readsBack
  rw [← reachable.invariant.compactIfNeeded_reads_iff fresh mergesEnd]
  refine forall_congr' fun key => ?_
  rw [LsmTree.getChecked_eq readsBack, LsmTree.getChecked_eq merged]

/-! ## A deletion that a compaction undoes -/

/-- The leveled strategy with at most two tables in level 0. -/
def leveledConfig : CompactionConfig :=
  { strategy := .leveled
    levelCount := 7
    maxSstablesPerLevel := 2
    levelThreshold := fun level => 1000000 * 10 ^ level
    targetSize := 65536
    jsonLen := fun _ => 0 }

def smallTable : TableInfo := ⟨100, 0, Nat.zero_lt_succ 99⟩

def outputFiles (timestamp : Nat) : OutputFiles :=
  ⟨fun _ => timestamp, fun index => index, fun _ => smallTable⟩

def flushed (tree : LsmTree) : LsmTree :=
  (tree.flushMemtableInternal [] smallTable .done).1

def putTrue (tree : LsmTree) (key : String) : LsmTree :=
  tree.put leveledConfig.jsonLen key (.bool true)

def twoTables : LsmTree :=
  flushed (putTrue (flushed (putTrue LsmTree.empty "k")) "a")

/-- A third table in level 0 deletes a key of the first. -/
def threeTables : LsmTree :=
  flushed (twoTables.delete leveledConfig.jsonLen "k")

theorem Reachable.putTrue
    {tree : LsmTree} (reachable : Reachable leveledConfig tree)
    (key : String) (written : ReadsBack key (.bool true)) :
    Reachable leveledConfig (putTrue tree key) :=
  reachable.put key (.bool true) written

theorem Reachable.flushed
    {tree : LsmTree} (reachable : Reachable leveledConfig tree) :
    Reachable leveledConfig (flushed tree) :=
  reachable.flush [] _ .done

theorem twoTables_reachable : Reachable leveledConfig twoTables :=
  ((Reachable.opened (LsmTree.empty_invariant _)
    LsmTree.empty_readsBack).putTrue "k" ⟨rfl, by decide⟩).flushed.putTrue
      "a" ⟨rfl, by decide⟩ |>.flushed

theorem threeTables_reachable : Reachable leveledConfig threeTables :=
  (twoTables_reachable.delete "k" ⟨rfl, by decide⟩).flushed

/-- The merge of all of level 0 keeps the deletion. -/
theorem threeTables_get_unchanged :
    LsmTree.getChecked 7
        { threeTables with
          levels := compactIfNeeded leveledConfig [] (outputFiles 10)
            threeTables.levels } "k" =
      threeTables.getChecked 7 "k" := by
  have chosen : levelToCompact leveledConfig [] threeTables.levels =
      some 0 := by rfl
  have fresh : FreshNames leveledConfig [] (outputFiles 10) threeTables := by
    intro level
    match level with
    | 0 => decide
    | level + 1 => exact List.nodup_nil
  refine (compactIfNeeded_get_iff leveledConfig [] (outputFiles 10)
    threeTables threeTables_reachable fresh ?_).mpr ?_ "k"
  · intro level higher
    rw [chosen] at higher
    exact absurd higher (by simp)
  · intro _ other tombstone _ _ _ _
    exact Or.inr ⟨rfl, fun entry member => absurd member (List.not_mem_nil)⟩

/-- The same two tables after a full compaction. -/
def compactedTables : LsmTree :=
  { twoTables with
    levels := Function.update (Function.update twoTables.levels 0 []) 1
      (mergedTables leveledConfig (outputFiles 10) 1
        (twoTables.levels 0 ++ twoTables.levels 1)) }

theorem compactedTables_reachable :
    Reachable leveledConfig compactedTables := by
  refine twoTables_reachable.compactAll (outputFiles 10) ?_ rfl
  intro levels same
  rw [← Except.ok.inj same]
  decide

/-- The deletion of `k` in a table of level 0, with `k` in level 1. -/
def deletedAbove : LsmTree :=
  flushed (putTrue (flushed (putTrue (flushed
    (compactedTables.delete leveledConfig.jsonLen "k")) "b")) "c")

theorem deletedAbove_reachable : Reachable leveledConfig deletedAbove :=
  (((compactedTables_reachable.delete "k" ⟨rfl, by decide⟩).flushed.putTrue
    "b" ⟨rfl, by decide⟩).flushed.putTrue "c" ⟨rfl, by decide⟩).flushed

/-- The merge of level 0 drops the deletion, and level 1 shows `k` again. -/
theorem compacted_deletion_is_undone :
    Reachable leveledConfig deletedAbove ∧
      FreshNames leveledConfig [] (outputFiles 20) deletedAbove ∧
      deletedAbove.getChecked 7 "k" = none ∧
      LsmTree.getChecked 7
        { deletedAbove with
          levels := compactIfNeeded leveledConfig [] (outputFiles 20)
            deletedAbove.levels } "k" = some (.bool true) := by
  refine ⟨deletedAbove_reachable, ?_, rfl, rfl⟩
  intro level
  match level with
  | 0 => decide
  | 1 => decide
  | level + 2 => exact List.nodup_nil

end F4kvsLsm
