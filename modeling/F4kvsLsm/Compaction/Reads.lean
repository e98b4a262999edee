import F4kvsLsm.Compaction.Merge

/-!
# Compaction and what readers see

The states of a run keep level 0 apart from level 1 by timestamps and level 1
in key order.  In such a state a compaction of level 0 changes what a reader
sees exactly when it drops a tombstone under which an older live version is
left, in a table of level 0 that is not merged or in level 1.
-/

namespace F4kvsLsm

open Versions

/-! ## Tables that stay -/

theorem remainingTables_sublist (files group : List SSTable) :
    (remainingTables files group).Sublist files :=
  List.filter_sublist

theorem remainingTables_self (files : List SSTable) :
    remainingTables files files = [] := by
  refine List.filter_eq_nil_iff.mpr fun table member => ?_
  simpa using ⟨table, member, rfl⟩

/-- A table is merged or stays. -/
theorem mem_remainingTables_or
    {files group : List SSTable} (names : (files.map (·.name)).Nodup)
    (part : ∀ table ∈ group, table ∈ files) {table : SSTable}
    (member : table ∈ files) :
    table ∈ remainingTables files group ∨ table ∈ group := by
  by_cases merged : ∃ compacted ∈ group, compacted.name = table.name
  · obtain ⟨compacted, inGroup, sameName⟩ := merged
    have same := List.inj_on_of_nodup_map names (part compacted inGroup)
      member sameName
    exact Or.inr (same ▸ inGroup)
  · left
    refine List.mem_filter.mpr ⟨member, ?_⟩
    rw [Bool.not_eq_true', List.any_eq_false]
    intro compacted inGroup
    rw [decide_eq_true_eq]
    exact fun sameName => merged ⟨compacted, inGroup, sameName⟩

theorem remainingTables_append
    {front group : List SSTable}
    (names : ((front ++ group).map (·.name)).Nodup) :
    remainingTables (front ++ group) group = front := by
  rw [List.map_append, List.nodup_append] at names
  rw [remainingTables, List.filter_append, List.filter_eq_self.mpr,
    List.filter_eq_nil_iff.mpr, List.append_nil]
  · intro table member
    rw [Bool.not_eq_true', Bool.not_eq_false, List.any_eq_true]
    exact ⟨table, member, by simp⟩
  · intro table member
    rw [Bool.not_eq_true', List.any_eq_false]
    intro compacted inGroup
    rw [decide_eq_true_eq]
    exact fun sameName =>
      names.2.2 table.name (List.mem_map_of_mem member) compacted.name
        (List.mem_map_of_mem inGroup) sameName.symm

section

variable {config : CompactionConfig} {order : List Nat}
variable {output : OutputFiles}

theorem largestGroup_sublist
    (bucket : SSTable → Nat) (order : List Nat) (files : List SSTable) :
    (largestGroup bucket order files).Sublist files := by
  rw [largestGroup]
  generalize start : ([] : List SSTable) = best
  have inside : best.Sublist files := start ▸ List.nil_sublist files
  clear start
  induction order generalizing best with
  | nil => exact inside
  | cons key order inductionHypothesis =>
      rw [List.foldl_cons]
      apply inductionHypothesis
      dsimp only
      split
      · exact List.filter_sublist
      · exact inside

theorem selectGroup_sublist
    (bucket : SSTable → Nat) (least : Nat) (order : List Nat)
    (files : List SSTable) :
    (selectGroup bucket least order files).Sublist files := by
  rw [selectGroup]
  split
  · exact largestGroup_sublist bucket order files
  · exact List.nil_sublist files

theorem selectSizeTiered_sublist (order : List Nat) (files : List SSTable) :
    (selectSizeTieredSstables order files).Sublist files := by
  rw [selectSizeTieredSstables]
  split
  · exact List.nil_sublist files
  · exact selectGroup_sublist _ _ _ files

/-- Only tables of the level are merged, each once. -/
theorem selected_sublist
    (config : CompactionConfig) (order : List Nat) (level : Nat)
    (files : List SSTable) :
    (selectSstablesForCompaction config order level files).Sublist files := by
  rw [selectSstablesForCompaction]
  split
  · exact List.Sublist.refl files
  · exact selectSizeTiered_sublist order files
  · exact selectGroup_sublist _ _ _ files
  · split
    · exact List.Sublist.refl files
    · exact selectSizeTiered_sublist order files

theorem selected_sub
    (config : CompactionConfig) (order : List Nat) (level : Nat)
    {files : List SSTable} {table : SSTable}
    (member :
      table ∈ selectSstablesForCompaction config order level files) :
    table ∈ files :=
  (selected_sublist config order level files).subset member

end

/-! ## The states of a run -/

theorem wellFormed_of_levels
    {levels : Nat → List SSTable}
    (level0 : ∀ table ∈ levels 0, table.WellFormed)
    (level1 : Leveled (levels 1)) (above : ∀ level, levels (level + 2) = []) :
    ∀ level, ∀ table ∈ levels level, table.WellFormed := by
  intro level table member
  match level, member with
  | 0, top => exact level0 table top
  | 1, low => exact level1.wellFormed table low
  | level + 2, deep =>
      rw [above level] at deep
      exact absurd deep List.not_mem_nil

/-- What every state of a run satisfies. -/
structure LsmTree.Invariant (config : CompactionConfig) (tree : LsmTree) :
    Prop where
  level0 : ∀ table ∈ tree.levels 0, table.WellFormed
  level1 : Leveled (tree.levels 1)
  live : ∀ entry ∈ allEntries (tree.levels 1), entry.deleted = false
  above : ∀ level, tree.levels (level + 2) = []
  single : config.levelCount < 2 → tree.levels 1 = []
  distinct : DistinctVersions (allEntries (tree.levels 0))
  newer : ∀ old ∈ allEntries (tree.levels 1),
    ∀ new ∈ allEntries (tree.levels 0), old.key = new.key →
      old.timestamp < new.timestamp
  stamped : ∀ entry ∈ allEntries (tree.levels 0 ++ tree.levels 1),
    entry.timestamp < tree.sequenceNumber
  names0 : ((tree.levels 0).map (·.name)).Nodup
  names1 : ((tree.levels 1).map (·.name)).Nodup
  flushNames : ∀ table ∈ tree.levels 0, ∀ level sequence,
    table.name = .flush level sequence → sequence < tree.sequenceNumber
  placed : ∀ level, ∀ table ∈ tree.levels level, table.name.level = level

/-- The engine with no data. -/
def LsmTree.empty : LsmTree := ⟨.new, [], fun _ => [], 1⟩

/-- Any counter is above no table. -/
theorem LsmTree.invariant_of_no_tables
    (config : CompactionConfig) (active : Memtable)
    (immutables : List Memtable) (sequence : Nat) :
    LsmTree.Invariant config
      ⟨active, immutables, fun _ => [], sequence⟩ where
  level0 := by simp
  level1 := ⟨by simp, List.Pairwise.nil⟩
  live := by simp
  above := fun _ => rfl
  single := fun _ => rfl
  distinct := by simp [DistinctVersions]
  newer := by simp
  stamped := by simp
  names0 := List.nodup_nil
  names1 := List.nodup_nil
  flushNames := by simp
  placed := by simp

theorem LsmTree.empty_invariant (config : CompactionConfig) :
    LsmTree.empty.Invariant config :=
  invariant_of_no_tables config .new [] 1

theorem LsmTree.le_sequenceAfterFlush
    (existing : List SstableName) (tree : LsmTree) :
    tree.sequenceNumber < sequenceAfterFlush existing tree := by
  have bound := le_freeSequence existing (existing.length + 1)
    tree.sequenceNumber
  rw [sequenceAfterFlush]
  omega

/-- The memtables and a higher counter do not matter. -/
theorem LsmTree.Invariant.advance
    {config : CompactionConfig} {tree : LsmTree}
    (invariant : tree.Invariant config) (active : Memtable)
    (immutables : List Memtable) {sequence : Nat}
    (grown : tree.sequenceNumber ≤ sequence) :
    LsmTree.Invariant config ⟨active, immutables, tree.levels, sequence⟩ where
  level0 := invariant.level0
  level1 := invariant.level1
  live := invariant.live
  above := invariant.above
  single := invariant.single
  distinct := invariant.distinct
  newer := invariant.newer
  stamped := fun entry member =>
    (invariant.stamped entry member).trans_le grown
  names0 := invariant.names0
  names1 := invariant.names1
  flushNames := fun table member level sequence name =>
    (invariant.flushNames table member level sequence name).trans_le grown
  placed := invariant.placed

theorem LsmTree.Invariant.stamped0
    {config : CompactionConfig} {tree : LsmTree}
    (invariant : tree.Invariant config) {entry : SSTableEntry}
    (member : entry ∈ allEntries (tree.levels 0)) :
    entry.timestamp < tree.sequenceNumber :=
  invariant.stamped entry (by
    rw [allEntries_append]
    exact List.mem_append_left _ member)

theorem LsmTree.Invariant.stamped1
    {config : CompactionConfig} {tree : LsmTree}
    (invariant : tree.Invariant config) {entry : SSTableEntry}
    (member : entry ∈ allEntries (tree.levels 1)) :
    entry.timestamp < tree.sequenceNumber :=
  invariant.stamped entry (by
    rw [allEntries_append]
    exact List.mem_append_right _ member)

theorem publish_zero (levels : Nat → List SSTable) (table : SSTable) :
    LsmTree.publish levels table 0 = levels 0 ++ [table] :=
  Function.update_self ..

theorem publish_succ (levels : Nat → List SSTable) (table : SSTable)
    (level : Nat) :
    LsmTree.publish levels table (level + 1) = levels (level + 1) :=
  Function.update_of_ne (by omega) ..

theorem mem_allEntries_publish
    {levels : Nat → List SSTable} {table : SSTable} {entry : SSTableEntry} :
    entry ∈ allEntries (LsmTree.publish levels table 0) ↔
      entry ∈ allEntries (levels 0) ∨ entry ∈ table.entries := by
  rw [publish_zero, allEntries_append, List.mem_append]
  simp [allEntries]

/-- A flushed table has timestamps above all others. -/
theorem LsmTree.Invariant.publish
    {config : CompactionConfig} {tree : LsmTree}
    (invariant : tree.Invariant config) (existing : List SstableName)
    (info : TableInfo) (nonempty : tree.active.entryCount > 0) :
    LsmTree.Invariant config
      ⟨.new, tree.immutables,
        LsmTree.publish tree.levels (flushedTable existing info tree),
        sequenceAfterFlush existing tree⟩ := by
  have whole : (flushedTable existing info tree).WellFormed :=
    flushedTable_wellFormed nonempty
  have grown := le_sequenceAfterFlush existing tree
  constructor
  case level0 =>
    intro table member
    simp only [publish_zero] at member
    rcases List.mem_append.mp member with old | new
    · exact invariant.level0 table old
    · rw [List.mem_singleton.mp new]
      exact whole
  case level1 =>
    simp only [publish_succ]
    exact invariant.level1
  case live =>
    simp only [publish_succ]
    exact invariant.live
  case above =>
    intro level
    simp only [publish_succ]
    exact invariant.above level
  case single =>
    simp only [publish_succ]
    exact invariant.single
  case distinct =>
    intro first firstMember second secondMember sameKey sameStamp
    rcases mem_allEntries_publish.mp firstMember with old | new <;>
      rcases mem_allEntries_publish.mp secondMember with old' | new'
    · exact invariant.distinct first old second old' sameKey sameStamp
    · have low := invariant.stamped0 old
      have high := (mem_flushedTable new').2.2.1
      omega
    · have low := invariant.stamped0 old'
      have high := (mem_flushedTable new).2.2.1
      omega
    · exact whole.eq_of_key_eq new new' sameKey
  case newer =>
    intro old oldMember new newMember sameKey
    simp only [publish_succ] at oldMember
    rcases mem_allEntries_publish.mp newMember with before | fresh
    · exact invariant.newer old oldMember new before sameKey
    · exact (invariant.stamped1 oldMember).trans
        (mem_flushedTable fresh).2.2.1
  case stamped =>
    intro entry member
    rw [allEntries_append, List.mem_append, mem_allEntries_publish] at member
    simp only [publish_succ] at member
    rcases member with (before | fresh) | low
    · exact (invariant.stamped0 before).trans grown
    · exact (mem_flushedTable fresh).2.2.2
    · exact (invariant.stamped1 low).trans grown
  case names0 =>
    simp only [publish_zero]
    rw [List.map_append, List.nodup_append]
    refine ⟨invariant.names0, by simp, ?_⟩
    intro name member other otherMember same
    obtain ⟨table, tableMember, rfl⟩ := List.mem_map.mp member
    simp only [List.map_cons, List.map_nil, List.mem_singleton] at otherMember
    rw [otherMember] at same
    have less := invariant.flushNames table tableMember 0 _ same
    have bound := le_freeSequence existing (existing.length + 1)
      tree.sequenceNumber
    omega
  case names1 =>
    simp only [publish_succ]
    exact invariant.names1
  case flushNames =>
    intro table member level sequence name
    simp only [publish_zero] at member
    rcases List.mem_append.mp member with old | new
    · exact (invariant.flushNames table old level sequence name).trans grown
    · rw [List.mem_singleton.mp new, flushedTable,
        SstableName.flush.injEq] at name
      simp only [← name.2, sequenceAfterFlush]
      omega
  case placed =>
    intro level table member
    cases level with
    | zero =>
        simp only [publish_zero] at member
        rcases List.mem_append.mp member with old | new
        · exact invariant.placed 0 table old
        · rw [List.mem_singleton.mp new]
          rfl
    | succ level =>
        simp only [publish_succ] at member
        exact invariant.placed _ table member

theorem LsmTree.Invariant.flush
    {config : CompactionConfig} {tree : LsmTree}
    (invariant : tree.Invariant config) (existing : List SstableName)
    (info : TableInfo) (outcome : FlushOutcome) :
    (flushMemtableInternal existing info outcome tree).1.Invariant config := by
  have grown := (le_sequenceAfterFlush existing tree).le
  unfold flushMemtableInternal
  split
  · case isTrue nonempty =>
      cases outcome with
      | done => exact invariant.publish existing info nonempty
      | failedWriting => exact invariant.advance _ _ grown
      | failedOpening => exact invariant.advance _ _ grown
  · exact invariant.advance .new tree.immutables le_rfl

end F4kvsLsm
