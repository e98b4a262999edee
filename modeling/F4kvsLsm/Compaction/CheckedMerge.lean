import F4kvsLsm.Compaction.MergeOrder
import F4kvsLsm.Compaction.Reads
import F4kvsLsm.Core.CheckedReads

/-!
# Merges of tables that cannot all be read

A table with a record that is refused gives no entries at all, and every
merge with such a table is aborted.  Tables whose records can be read are
merged into such tables again.
-/

namespace F4kvsLsm

/-! ## Aborted merges -/

/-- `read_sstable_entries_safe` on a table that is ready: the first record
that is refused ends the read, and then nothing was read. -/
def SSTable.reading (path : SSTable → String) (table : SSTable) :
    SstableReading where
  path := path table
  entryCount := table.entries.length
  entries :=
    if table.entries.all fun entry => entry.readFault.isNone then
      table.entries
    else []

/-- `merge_sstables_safe`, with tables that cannot all be read. -/
def mergeSstablesChecked (path : SSTable → String) (files : List SSTable) :
    Except LsmError (List SSTableEntry) :=
  mergeReadings (files.map (·.reading path))

theorem SSTable.all_readFault_iff {table : SSTable} :
    (table.entries.all fun entry => entry.readFault.isNone) = true ↔
      table.ReadsBack := by
  rw [List.all_eq_true]
  apply forall₂_congr
  intro entry _
  rw [Option.isNone_iff_eq_none, SSTableEntry.readFault_eq_none_iff]

theorem SSTable.reading_isWhole_iff {path : SSTable → String}
    {table : SSTable} :
    (table.reading path).isWhole = true ↔ table.ReadsBack := by
  rw [SstableReading.isWhole, decide_eq_true_eq, SSTable.reading]
  by_cases readsBack : table.ReadsBack
  · rw [if_pos (SSTable.all_readFault_iff.mpr readsBack)]
    exact iff_of_true rfl readsBack
  · rw [if_neg (mt SSTable.all_readFault_iff.mp readsBack)]
    refine iff_of_false (fun empty => readsBack ?_) readsBack
    intro entry member
    rw [List.eq_nil_of_length_eq_zero empty.symm] at member
    cases member

/-- A merge is carried out exactly when every record of its tables can be
read. -/
theorem mergeSstablesChecked_eq_ok_iff (path : SSTable → String)
    (files : List SSTable) :
    mergeSstablesChecked path files = .ok (mergeSstablesSafe files) ↔
      ∀ table ∈ files, table.ReadsBack := by
  rw [mergeSstablesChecked, mergeReadings_eq_ok_iff, List.forall_mem_map]
  simp only [SSTable.reading_isWhole_iff]
  refine and_iff_left_of_imp fun readsBack => ?_
  rw [mergeSstablesSafe, readEntries, List.flatMap_map, allEntries]
  congr 1
  apply List.flatMap_congr
  intro table member
  exact (if_pos (SSTable.all_readFault_iff.mpr (readsBack table member))).symm

/-! ## Aborted compactions -/

/-- `compact_level`, with tables that cannot all be read. -/
def compactLevelChecked (path : SSTable → String)
    (config : CompactionConfig) (order : List Nat) (output : OutputFiles)
    (level : Nat) (files : List SSTable) : Except LsmError (List SSTable) :=
  let group := selectSstablesForCompaction config order level files
  if group.isEmpty then .ok files
  else do
    let merged ← mergeSstablesChecked path group
    return remainingTables files group ++
      createNewSstables config output level (deduplicateEntries merged)

/-- `compact_if_needed`, with tables that cannot all be read. -/
def compactIfNeededChecked (path : SSTable → String)
    (config : CompactionConfig) (order : List Nat) (output : OutputFiles)
    (levels : Nat → List SSTable) : Except LsmError (Nat → List SSTable) :=
  match levelToCompact config order levels with
  | some level => do
      let files ← compactLevelChecked path config order output level
        (levels level)
      return Function.update levels level files
  | none => .ok levels

section

variable {path : SSTable → String} {config : CompactionConfig}
  {order : List Nat} {output : OutputFiles} {level : Nat}
  {levels : Nat → List SSTable}

theorem compactLevelChecked_eq {files : List SSTable}
    (readsBack : ∀ table ∈ selectSstablesForCompaction config order level
      files, table.ReadsBack) :
    compactLevelChecked path config order output level files =
      .ok (compactLevel config order output level files) := by
  rw [compactLevelChecked, compactLevel,
    (mergeSstablesChecked_eq_ok_iff path _).mpr readsBack]
  split <;> rfl

/-- A call that finds nothing to merge, or only tables that can be read. -/
theorem compactIfNeededChecked_eq
    (readsBack : ∀ level,
      levelToCompact config order levels = some level →
        ∀ table ∈ selectSstablesForCompaction config order level
          (levels level), table.ReadsBack) :
    compactIfNeededChecked path config order output levels =
      .ok (compactIfNeeded config order output levels) := by
  rw [compactIfNeededChecked, compactIfNeeded]
  cases chosen : levelToCompact config order levels with
  | none => rfl
  | some level =>
      simp only [compactLevelChecked_eq (readsBack level chosen)]
      rfl

end

/-! ## Merged tables -/

section

variable {config : CompactionConfig} {output : OutputFiles}
  {order : List Nat} {level : Nat}

theorem mem_allEntries_of_mergedTables {files : List SSTable}
    {entry : SSTableEntry}
    (member : entry ∈ allEntries (mergedTables config output level files)) :
    entry ∈ allEntries files := by
  rw [mergedTables, allEntries_createNewSstables, deduplicateEntries]
    at member
  have sorted := (dedupLoop_sublist _ _).subset member
  rwa [mem_sortEntries, mergeSstablesSafe, mem_sortEntries] at sorted

theorem readsBack_mergedTables {files : List SSTable}
    (readsBack : ∀ table ∈ files, table.ReadsBack) :
    ∀ table ∈ mergedTables config output level files, table.ReadsBack := by
  intro table member entry inTable
  obtain ⟨source, inFiles, inSource⟩ := mem_allEntries.mp
    (mem_allEntries_of_mergedTables (mem_allEntries.mpr
      ⟨table, member, inTable⟩))
  exact readsBack source inFiles entry inSource

theorem readsBack_compactLevel {files : List SSTable}
    (readsBack : ∀ table ∈ files, table.ReadsBack) :
    ∀ table ∈ compactLevel config order output level files,
      table.ReadsBack := by
  rw [compactLevel]
  split
  · exact readsBack
  · intro table member
    rcases List.mem_append.mp member with kept | merged
    · exact readsBack table (List.mem_of_mem_filter kept)
    · exact readsBack_mergedTables (fun other inGroup =>
        readsBack other (selected_sub config order level inGroup))
        table merged

section

variable {levels levels' : Nat → List SSTable}
  (readsBack : ∀ level, ∀ table ∈ levels level, table.ReadsBack)

include readsBack

theorem readsBack_compactIfNeeded :
    ∀ level, ∀ table ∈ compactIfNeeded config order output levels level,
      table.ReadsBack := by
  intro level table member
  cases chosen : levelToCompact config order levels with
  | none =>
      rw [compactIfNeeded, chosen] at member
      exact readsBack level table member
  | some merged =>
      rw [compactIfNeeded, chosen] at member
      dsimp only at member
      by_cases here : level = merged
      · rw [here, Function.update_self] at member
        exact readsBack_compactLevel (readsBack merged) table member
      · rw [Function.update_of_ne here] at member
        exact readsBack level table member

theorem readsBack_compactAll
    (compacted : compactAll config output levels = .ok levels') :
    ∀ level, ∀ table ∈ levels' level, table.ReadsBack := by
  have inputs : ∀ table ∈ validSstablesForCompact (levels 0) ++
      validSstablesForCompact (levels 1), table.ReadsBack := by
    intro table member
    rcases List.mem_append.mp member with top | low
    · exact readsBack 0 table (List.mem_of_mem_filter top)
    · exact readsBack 1 table (List.mem_of_mem_filter low)
  intro level table member
  rw [compactAll] at compacted
  split at compacted
  · cases compacted
  · dsimp only at compacted
    split at compacted
    · cases compacted
      exact readsBack level table member
    · split at compacted
      · cases compacted
        exact readsBack level table member
      · cases compacted
        by_cases low : level = 1
        · rw [low, Function.update_self, sortLeveledSstables,
            List.mem_insertionSort, List.mem_append] at member
          rcases member with merged | kept
          · exact readsBack_mergedTables inputs table merged
          · exact readsBack 1 table (List.mem_of_mem_filter kept)
        · rw [Function.update_of_ne low] at member
          by_cases top : level = 0
          · rw [top, Function.update_self] at member
            exact readsBack 0 table (List.mem_of_mem_filter member)
          · rw [Function.update_of_ne top] at member
            exact readsBack level table member

end

end

theorem LsmTree.empty_readsBack : LsmTree.empty.ReadsBack where
  memtables := List.forall_mem_singleton.mpr Memtable.new_readsBack
  tables := fun _ _ member => absurd member List.not_mem_nil

namespace LsmTree.ReadsBack

variable {config : CompactionConfig} {output : OutputFiles}
  {order : List Nat} {tree : LsmTree} {levels : Nat → List SSTable}
  (readsBack : tree.ReadsBack)

include readsBack

theorem compactIfNeeded :
    LsmTree.ReadsBack { tree with
      levels := F4kvsLsm.compactIfNeeded config order output tree.levels } :=
  ⟨readsBack.memtables, readsBack_compactIfNeeded readsBack.tables⟩

theorem compactAll
    (compacted : F4kvsLsm.compactAll config output tree.levels = .ok levels) :
    LsmTree.ReadsBack { tree with levels := levels } :=
  ⟨readsBack.memtables, readsBack_compactAll readsBack.tables compacted⟩

end LsmTree.ReadsBack

end F4kvsLsm
