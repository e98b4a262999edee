import F4kvsLsm.Compaction.Merge
import F4kvsLsm.Lib.KeyOrder

/-!
# The entries of a merge

What `merge_sstables_safe` sorts and `deduplicate_entries` keeps depends on
the entries that were read and not on the order of the files they were in.
A merge in which some file was not read whole ends in an error.
-/

namespace F4kvsLsm

open Versions KeyOrder

/-- A table of a merge: its metadata's entry count, and the entries that
`read_sstable_entries_safe` returned for it. -/
structure SstableReading where
  path : String
  entryCount : Nat
  entries : List SSTableEntry

namespace SstableReading

/-- Every entry of the table was read. -/
def isWhole (reading : SstableReading) : Bool :=
  reading.entries.length = reading.entryCount

end SstableReading

def compactionAborted (corruptedSstables : List String) : LsmError :=
  .internal ("Compaction aborted: " ++ toString corruptedSstables.length ++
    " SSTable(s) unreadable (would drop keys if inputs were deleted): [" ++
    ", ".intercalate (corruptedSstables.map String.quote) ++ "]")

/-- `merge_sstables_safe`, after the tables have been read. -/
def mergeReadings (sstables : List SstableReading) :
    Except LsmError (List SSTableEntry) :=
  if sstables.isEmpty then .ok []
  else
    let corruptedSstables := (sstables.filter (!·.isWhole)).map (·.path)
    if corruptedSstables.isEmpty then
      .ok (sortEntries ((sstables.filter (·.isWhole)).flatMap (·.entries)))
    else .error (compactionAborted corruptedSstables)

def readEntries (sstables : List SstableReading) : List SSTableEntry :=
  sstables.flatMap (·.entries)

/-- No version of the entry's key has a later timestamp. -/
def IsNewest (entries : List SSTableEntry) (entry : SSTableEntry) : Prop :=
  entry ∈ entries ∧ ∀ other ∈ entries, other.key = entry.key →
    other.timestamp ≤ entry.timestamp

theorem latest_eq_some_self_iff
    {entries : List SSTableEntry} (distinct : DistinctVersions entries)
    {entry : SSTableEntry} :
    latest entries entry.key = some entry ↔ IsNewest entries entry := by
  rw [latest_eq_some_iff distinct]
  simp [IsNewest]

theorem mergeReadings_of_whole
    {sstables : List SstableReading}
    (whole : ∀ reading ∈ sstables, reading.isWhole = true) :
    mergeReadings sstables = .ok (sortEntries (readEntries sstables)) := by
  have noneCorrupted : sstables.filter (!·.isWhole) = [] :=
    List.filter_eq_nil_iff.mpr fun reading member => by
      simp [whole reading member]
  have allRead : sstables.filter (·.isWhole) = sstables :=
    List.filter_eq_self.mpr whole
  rw [mergeReadings, noneCorrupted, allRead]
  by_cases empty : sstables.isEmpty
  · rw [if_pos empty]
    rw [List.isEmpty_iff] at empty
    rw [empty]
    rfl
  · rw [if_neg empty]
    rfl

theorem mergeReadings_eq_ok_iff
    {sstables : List SstableReading} {sorted : List SSTableEntry} :
    mergeReadings sstables = .ok sorted ↔
      (∀ reading ∈ sstables, reading.isWhole = true) ∧
        sorted = sortEntries (readEntries sstables) := by
  by_cases whole : ∀ reading ∈ sstables, reading.isWhole = true
  · rw [mergeReadings_of_whole whole, Except.ok.injEq, eq_comm,
      and_iff_right whole]
  · refine iff_of_false ?_ fun both => whole both.1
    simp only [not_forall, Bool.not_eq_true] at whole
    obtain ⟨reading, member, short⟩ := whole
    have corrupted : reading ∈ sstables.filter (!·.isWhole) :=
      List.mem_filter.mpr ⟨member, by simp [short]⟩
    have someTable : ¬ sstables.isEmpty := by
      rw [List.isEmpty_iff]
      exact List.ne_nil_of_mem member
    have someCorrupted : ¬ ((sstables.filter (!·.isWhole)).map
        (·.path)).isEmpty := by
      rw [List.isEmpty_iff]
      exact List.ne_nil_of_mem (List.mem_map_of_mem corrupted)
    rw [mergeReadings, if_neg someTable]
    simp only [if_neg someCorrupted]
    exact nofun

theorem mergeReadings_tables (files : List SSTable) (path : SSTable → String) :
    mergeReadings (files.map fun table =>
      ⟨path table, table.entries.length, table.entries⟩) =
        .ok (mergeSstablesSafe files) := by
  rw [mergeReadings_of_whole]
  · rw [readEntries, List.flatMap_map]
    rfl
  · intro reading member
    obtain ⟨table, -, rfl⟩ := List.mem_map.mp member
    simp [SstableReading.isWhole]

theorem deduplicate_sortEntries_congr
    {entries entries' : List SSTableEntry} (distinct : DistinctVersions entries)
    (same : ∀ entry, entry ∈ entries' ↔ entry ∈ entries) :
    deduplicateEntries (sortEntries entries') =
      deduplicateEntries (sortEntries entries) := by
  have distinct' : DistinctVersions entries' :=
    distinct.mono fun entry member => (same entry).mp member
  have ascending : ∀ sorted,
      Ascending SSTableEntry.key (deduplicateEntries sorted) :=
    deduplicateEntries_sorted
  refine Ascending.eq_of_mem_iff (ascending _) (ascending _) fun entry => ?_
  rw [mem_deduplicate_sortEntries distinct',
    mem_deduplicate_sortEntries distinct, latest_congr distinct same]

/-- A merge whose files were read whole yields, in strict key order, the
newest version of every key unless it is a tombstone, whatever the order of
the files. -/
theorem merge_keeps_newest_live
    {sstables : List SstableReading}
    (whole : ∀ reading ∈ sstables, reading.isWhole = true)
    (distinct : DistinctVersions (readEntries sstables)) :
    ∃ sorted, mergeReadings sstables = .ok sorted ∧
      Ascending SSTableEntry.key (deduplicateEntries sorted) ∧
      (∀ entry, entry ∈ deduplicateEntries sorted ↔
        IsNewest (readEntries sstables) entry ∧ entry.deleted = false) ∧
      ∀ sstables', sstables'.Perm sstables →
        (mergeReadings sstables').map deduplicateEntries =
          .ok (deduplicateEntries sorted) := by
  refine ⟨sortEntries (readEntries sstables), mergeReadings_of_whole whole,
    deduplicateEntries_sorted _, fun entry => ?_, fun sstables' perm => ?_⟩
  · rw [mem_deduplicate_sortEntries distinct,
      latest_eq_some_self_iff distinct]
  · have whole' : ∀ reading ∈ sstables', reading.isWhole = true :=
      fun reading member => whole reading (perm.mem_iff.mp member)
    have same : ∀ entry,
        entry ∈ readEntries sstables' ↔ entry ∈ readEntries sstables :=
      fun entry => (perm.flatMap_right _).mem_iff
    rw [mergeReadings_of_whole whole', Except.map,
      deduplicate_sortEntries_congr distinct same]

/-- An overwritten key in two files, and a deleted one. -/
def overwrittenReadings : List SstableReading :=
  [⟨"level_0_1.sst", 2,
      [⟨"key1", .string "value1", 1000, false⟩,
        ⟨"key3", .null, 1003, true⟩]⟩,
    ⟨"level_0_2.sst", 2,
      [⟨"key1", .string "value1_updated", 1001, false⟩,
        ⟨"key2", .string "value2", 1002, false⟩]⟩]

theorem overwrittenReadings_in_any_order :
    (mergeReadings overwrittenReadings.reverse).map deduplicateEntries =
      (mergeReadings overwrittenReadings).map deduplicateEntries := by
  have distinct : DistinctVersions (readEntries overwrittenReadings) := by
    simp [DistinctVersions, readEntries, overwrittenReadings]
  obtain ⟨sorted, merged, -, -, anyOrder⟩ :=
    merge_keeps_newest_live (by decide) distinct
  rw [anyOrder _ (List.reverse_perm _), merged]
  rfl

end F4kvsLsm
