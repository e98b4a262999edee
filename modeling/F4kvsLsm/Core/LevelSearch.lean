import F4kvsLsm.Core.Load
import F4kvsLsm.Lib.Intervals

/-!
# Searching a level without overlaps

`find_sstable_for_key` returns a position in a level that is sorted by the
largest keys.  The tables are known by their key ranges only; that no two
ranges share a key is what makes the search right.
-/

namespace F4kvsLsm

open BinarySearch Intervals

/-- The key lies in the key range of the table. -/
def SSTable.Covers (table : SSTable) (key : String) : Prop :=
  Intervals.Covers SSTable.smallestKey SSTable.largestKey table key

/-- `find_sstable_for_key`, with the position that it returns. -/
def findSstableIndexForKey (files : List SSTable) (key : String) :
    Option Nat :=
  if files.isEmpty then none
  else
    let idx := partitionPoint (fun table => table.largestKey < key) files
    match files[idx]? with
    | some table =>
        if key ≥ table.smallestKey ∧ key ≤ table.largestKey then some idx
        else none
    | none => none

/-- How the tables of a level come to be sorted: when a compaction installs
them, or when they are loaded from a directory. -/
inductive Arranged (files : List SSTable) : List SSTable → Prop
  | installed : Arranged files (sortLeveledSstables files)
  | loaded (directory : List SSTable) (level : Nat) :
      files = directory.filter (fun table => table.name.level = level + 1) →
      Arranged files (loadLevel directory (level + 1))

theorem Arranged.eq_sorted
    {files sorted : List SSTable} (arranged : Arranged files sorted) :
    sorted = sortLeveledSstables files := by
  cases arranged with
  | installed => rfl
  | loaded directory level holds =>
      rw [holds, loadLevel]
      rfl

theorem sortLeveledSstables_perm (files : List SSTable) :
    (sortLeveledSstables files).Perm files :=
  List.perm_insertionSort _ files

/-- The position of the first table that does not end below the key. -/
def searchPoint (files : List SSTable) (key : String) : Nat :=
  partitionPoint (fun table => table.largestKey < key) files

/-- An empty level needs no case of its own. -/
theorem findSstableIndexForKey_eq_bind (files : List SSTable) (key : String) :
    findSstableIndexForKey files key =
      (files[searchPoint files key]?).bind fun table =>
        if table.smallestKey ≤ key ∧ key ≤ table.largestKey then
          some (searchPoint files key)
        else none := by
  rw [findSstableIndexForKey, searchPoint]
  by_cases empty : files = []
  · rw [empty]
    rfl
  · rw [if_neg (by simpa using empty)]
    dsimp only
    cases files[partitionPoint
        (fun table => decide (table.largestKey < key)) files]? with
    | none => rfl
    | some table => rfl

theorem findSstableIndexForKey_eq_some_iff
    {files : List SSTable} {key : String} {index : Nat} :
    findSstableIndexForKey files key = some index ↔
      index = searchPoint files key ∧
        ∃ table, files[index]? = some table ∧ table.Covers key := by
  rw [findSstableIndexForKey_eq_bind, Option.bind_eq_some_iff]
  constructor
  · rintro ⟨table, found, passed⟩
    rw [Option.ite_none_right_eq_some, Option.some.injEq] at passed
    obtain ⟨inRange, rfl⟩ := passed
    exact ⟨rfl, table, found, inRange⟩
  · rintro ⟨rfl, table, found, covers⟩
    exact ⟨table, found, if_pos covers⟩

/-- The table that the lookup goes to is the one at that position. -/
theorem findSstableForKey_eq_getElem (files : List SSTable) (key : String) :
    findSstableForKey files key =
      (findSstableIndexForKey files key).bind (files[·]?) := by
  rw [findSstableForKey, findSstableIndexForKey_eq_bind, ← searchPoint]
  cases found : files[searchPoint files key]? with
  | none => rfl
  | some table =>
      rw [Option.bind_some]
      dsimp only
      split
      · rw [Option.bind_some, found]
      · rfl

/-- In a sorted level whose key ranges are proper and share no key, the
search returns the position of the table whose range contains the key, and
nothing when there is none. -/
theorem level_search_finds_covering_table
    {files sorted : List SSTable} (arranged : Arranged files sorted)
    (proper : ∀ table ∈ files, table.smallestKey ≤ table.largestKey)
    (disjoint : files.Pairwise
      (Apart SSTable.smallestKey SSTable.largestKey))
    (key : String) :
    (∀ index, findSstableIndexForKey sorted key = some index ↔
      ∃ table, sorted[index]? = some table ∧ table.Covers key) ∧
    (findSstableIndexForKey sorted key = none ↔
      ∀ table ∈ files, ¬ table.Covers key) := by
  rw [arranged.eq_sorted]
  have perm := sortLeveledSstables_perm files
  have bySorting := sortLeveledSstables_sorted files
  have apart : (sortLeveledSstables files).Pairwise
      (Apart SSTable.smallestKey SSTable.largestKey) :=
    (perm.pairwise_iff Apart.symm).mpr disjoint
  have ordered := high_lt_low_of_sorted
    (fun table member => proper table (perm.mem_iff.mp member)) apart bySorting
  have found : ∀ index,
      findSstableIndexForKey (sortLeveledSstables files) key = some index ↔
        ∃ table, (sortLeveledSstables files)[index]? = some table ∧
          table.Covers key := by
    intro index
    rw [findSstableIndexForKey_eq_some_iff, and_iff_right_iff_imp]
    rintro ⟨table, there, covers⟩
    obtain ⟨bound, rfl⟩ := List.getElem?_eq_some_iff.mp there
    exact (partitionPoint_eq_of_covers ordered bySorting bound covers).symm
  refine ⟨found, ?_⟩
  constructor
  · intro missing table member covers
    obtain ⟨index, there⟩ := List.mem_iff_getElem?.mp (perm.mem_iff.mpr member)
    rw [(found index).mpr ⟨table, there, covers⟩] at missing
    cases missing
  · intro uncovered
    rw [Option.eq_none_iff_forall_ne_some]
    intro index here
    obtain ⟨table, there, covers⟩ := (found index).mp here
    exact uncovered table (perm.mem_iff.mp (List.mem_of_getElem? there)) covers

/-- A table of two live keys. -/
def rangeTable (smallest largest : String) : SSTable where
  name := .compaction 1 0 0
  entries := [⟨smallest, .bool true, 1, false⟩, ⟨largest, .bool true, 2, false⟩]
  fileSize := 1
  createdAt := 0
  blockCompressed := true

/-- A key in the gap between a range and a single key. -/
theorem key_in_gap_is_not_found :
    findSstableIndexForKey
      (sortLeveledSstables [rangeTable "e" "e", rangeTable "a" "c"]) "d" =
        none := by
  refine (level_search_finds_covering_table .installed ?_ ?_ "d").2.mpr ?_
  · simp only [List.mem_cons, List.not_mem_nil, or_false, forall_eq_or_imp,
      forall_eq]
    decide
  · refine List.pairwise_pair.mpr (apart_of_high_lt_low ?_).symm
    decide
  · simp only [List.mem_cons, List.not_mem_nil, or_false, forall_eq_or_imp,
      forall_eq, SSTable.Covers, Intervals.Covers]
    decide

end F4kvsLsm
