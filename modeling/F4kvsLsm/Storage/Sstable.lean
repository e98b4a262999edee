import Mathlib.Data.String.Basic
import Mathlib.Data.List.Nodup
import Mathlib.Data.List.TakeWhile
import F4kvsLsm.Lib.Newest
import F4kvsLsm.Lib.PartitionPoint
import F4kvsLsm.Storage.Entry

/-!
# Tables and the levels that hold them

A table is the sorted list of its entries.  Level 0 may hold overlapping
tables and is read by the latest timestamp; every other level is searched by
binary search over the largest keys.  The reads are those of tables whose
records can all be read back.
-/

namespace F4kvsLsm

open Versions BinarySearch

/-- File names of the flush path and of compaction. -/
inductive SstableName where
  | flush (level sequence : Nat)
  | compaction (level timestamp uniq : Nat)
  deriving DecidableEq, Repr

/-- `parse_sstable_level_from_filename`. -/
def SstableName.level : SstableName → Nat
  | .flush level _ => level
  | .compaction level _ _ => level

/-- An open table whose file can be read. -/
structure SSTable where
  name : SstableName
  entries : List SSTableEntry
  fileSize : Nat
  createdAt : Nat
  blockCompressed : Bool

/-- What a reader sees of an entry. -/
def SSTableEntry.visible (entry : SSTableEntry) : Option Value :=
  if entry.deleted then none else some entry.value

theorem SSTableEntry.visible_eq_none_iff (entry : SSTableEntry) :
    entry.visible = none ↔ entry.deleted = true := by
  simp [SSTableEntry.visible]

namespace SSTable

def smallestKey (table : SSTable) : String :=
  match table.entries.head? with
  | some entry => entry.key
  | none => ""

def largestKey (table : SSTable) : String :=
  match table.entries.getLast? with
  | some entry => entry.key
  | none => ""

/-- The key range check; a table without a filter in memory has no other. -/
def keyMayExist (table : SSTable) (key : String) : Bool :=
  ¬ (key < table.smallestKey ∨ table.largestKey < key)

/-- `lookup_pinned` where all records can be read: nothing is `Missing`, a
deleted entry is `Tombstone`. -/
def lookup (table : SSTable) (key : String) : Option SSTableEntry :=
  if table.keyMayExist key then
    table.entries.find? (fun entry => entry.key = key)
  else none

theorem lookup_outside {table : SSTable} {key : String}
    (outside : table.keyMayExist key = false) : table.lookup key = none := by
  rw [SSTable.lookup, outside]
  rfl

/-- What `write_entries` makes of some entries in strict key order; the file
has at least its header. -/
structure WellFormed (table : SSTable) : Prop where
  sized : 0 < table.fileSize
  nonempty : table.entries ≠ []
  sorted : table.entries.Pairwise (fun first second => first.key < second.key)

end SSTable

/-- Tables that are no candidates have no hit. -/
theorem filterMap_of_outside {files : List SSTable} {key : String}
    {hit : SSTable → Option SSTableEntry}
    (outside : ∀ table : SSTable, table.keyMayExist key = false →
      hit table = none) :
    (files.filter (·.keyMayExist key)).filterMap hit =
      files.filterMap hit := by
  rw [List.filterMap_filter]
  congr 1
  funext table
  cases within : table.keyMayExist key with
  | true => rfl
  | false => simp [outside table within]

/-! ## Reading the levels -/

def getFromLevel0 (files : List SSTable) (key : String) :
    Option SSTableEntry :=
  newest SSTableEntry.timestamp
    ((files.filter (·.keyMayExist key)).filterMap (·.lookup key))

/-- Binary search for the table of a level without overlaps. -/
def findSstableForKey (files : List SSTable) (key : String) :
    Option SSTable :=
  match files[partitionPoint (fun table => table.largestKey < key) files]? with
  | some table =>
      if table.smallestKey ≤ key ∧ key ≤ table.largestKey then some table
      else none
  | none => none

theorem findSstableForKey_mem {files : List SSTable} {table : SSTable}
    {key : String}
    (found : findSstableForKey files key = some table) : table ∈ files := by
  rw [findSstableForKey] at found
  split at found
  · case h_1 candidate here =>
      split at found
      · rw [← Option.some.inj found]
        exact List.mem_of_getElem? here
      · exact absurd found (by simp)
  · exact absurd found (by simp)

def getFromLevel (level : Nat) (files : List SSTable) (key : String) :
    Option SSTableEntry :=
  match level with
  | 0 => getFromLevel0 files key
  | _ + 1 => (findSstableForKey files key).bind (·.lookup key)

/-- The first level that knows the key decides. -/
def getFromSstables (levelCount : Nat) (levels : Nat → List SSTable)
    (key : String) : Option Value :=
  ((List.range levelCount).findSome? fun level =>
    getFromLevel level (levels level) key).bind SSTableEntry.visible

/-! ## What a table holds -/

namespace SSTable.WellFormed

variable {table : SSTable}

theorem smallestKey_le
    (wellFormed : table.WellFormed) {entry : SSTableEntry}
    (member : entry ∈ table.entries) : table.smallestKey ≤ entry.key := by
  obtain ⟨-, -, sorted⟩ := wellFormed
  cases entries : table.entries with
  | nil => simp [entries] at member
  | cons first rest =>
      have smallest : table.smallestKey = first.key := by
        simp [smallestKey, entries]
      rw [entries] at sorted member
      rw [smallest]
      rcases List.mem_cons.mp member with here | behind
      · rw [here]
      · exact ((List.pairwise_cons.mp sorted).1 entry behind).le

theorem le_largestKey
    (wellFormed : table.WellFormed) {entry : SSTableEntry}
    (member : entry ∈ table.entries) : entry.key ≤ table.largestKey := by
  obtain ⟨-, nonempty, sorted⟩ := wellFormed
  obtain ⟨front, last, entries⟩ :=
    (List.eq_nil_or_concat' table.entries).resolve_left nonempty
  have largest : table.largestKey = last.key := by
    simp [largestKey, entries]
  rw [entries] at sorted member
  rw [largest]
  rcases List.mem_append.mp member with before | here
  · exact ((List.pairwise_append.mp sorted).2.2 entry before last
      (by simp)).le
  · rw [List.mem_singleton.mp here]

theorem eq_of_key_eq
    (wellFormed : table.WellFormed) {first second : SSTableEntry}
    (firstMember : first ∈ table.entries)
    (secondMember : second ∈ table.entries)
    (sameKey : first.key = second.key) : first = second := by
  have injective := List.inj_on_of_nodup_map (f := SSTableEntry.key)
    (l := table.entries) (by
      rw [List.Nodup, List.pairwise_map]
      exact wellFormed.sorted.imp fun less => less.ne)
  exact injective firstMember secondMember sameKey

theorem exists_largest (wellFormed : table.WellFormed) :
    ∃ entry ∈ table.entries, entry.key = table.largestKey := by
  obtain ⟨front, last, entries⟩ :=
    (List.eq_nil_or_concat' table.entries).resolve_left wellFormed.nonempty
  exact ⟨last, by simp [entries], by simp [largestKey, entries]⟩

theorem exists_smallest (wellFormed : table.WellFormed) :
    ∃ entry ∈ table.entries, entry.key = table.smallestKey := by
  cases entries : table.entries with
  | nil => exact absurd entries wellFormed.nonempty
  | cons first rest => exact ⟨first, by simp, by simp [smallestKey, entries]⟩

theorem keyMayExist
    (wellFormed : table.WellFormed) {entry : SSTableEntry}
    (member : entry ∈ table.entries) :
    table.keyMayExist entry.key = true := by
  have low := wellFormed.smallestKey_le member
  have high := wellFormed.le_largestKey member
  simp only [SSTable.keyMayExist, decide_eq_true_eq, not_or, not_lt]
  exact ⟨low, high⟩

theorem lookup_eq_some_iff
    (wellFormed : table.WellFormed) {key : String} {entry : SSTableEntry} :
    table.lookup key = some entry ↔
      entry ∈ table.entries ∧ entry.key = key := by
  constructor
  · intro found
    rw [lookup] at found
    split at found
    · have member := List.mem_of_find?_eq_some found
      have same := List.find?_some found
      exact ⟨member, by simpa using same⟩
    · exact absurd found (by simp)
  · rintro ⟨member, rfl⟩
    rw [lookup, if_pos (wellFormed.keyMayExist member)]
    cases found : table.entries.find?
        (fun other => other.key = entry.key) with
    | none =>
        rw [List.find?_eq_none] at found
        exact absurd (found entry member) (by simp)
    | some other =>
        have otherMember := List.mem_of_find?_eq_some found
        have same := List.find?_some found
        rw [decide_eq_true_eq] at same
        rw [wellFormed.eq_of_key_eq otherMember member same]

end SSTable.WellFormed

/-- All entries of some tables. -/
def allEntries (files : List SSTable) : List SSTableEntry :=
  files.flatMap (·.entries)

@[simp]
theorem allEntries_nil : allEntries [] = [] := rfl

theorem allEntries_append (front back : List SSTable) :
    allEntries (front ++ back) = allEntries front ++ allEntries back := by
  simp [allEntries]

theorem mem_allEntries {files : List SSTable} {entry : SSTableEntry} :
    entry ∈ allEntries files ↔ ∃ table ∈ files, entry ∈ table.entries := by
  simp [allEntries]

/-- The versions of one key among some entries. -/
def versionsOf (entries : List SSTableEntry) (key : String) :
    List SSTableEntry :=
  entries.filter (fun entry => entry.key = key)

theorem mem_versionsOf
    {entries : List SSTableEntry} {key : String} {entry : SSTableEntry} :
    entry ∈ versionsOf entries key ↔ entry ∈ entries ∧ entry.key = key := by
  simp [versionsOf]

/-- The newest version of a key. -/
def latest (entries : List SSTableEntry) (key : String) :
    Option SSTableEntry :=
  newest SSTableEntry.timestamp (versionsOf entries key)

/-- No two versions of a key carry one timestamp. -/
def DistinctVersions (entries : List SSTableEntry) : Prop :=
  ∀ first ∈ entries, ∀ second ∈ entries, first.key = second.key →
    first.timestamp = second.timestamp → first = second

theorem DistinctVersions.versionsOf
    {entries : List SSTableEntry} (distinct : DistinctVersions entries)
    (key : String) :
    Distinct SSTableEntry.timestamp (versionsOf entries key) := by
  intro first firstMember second secondMember sameStamp
  rw [mem_versionsOf] at firstMember secondMember
  exact distinct first firstMember.1 second secondMember.1
    (firstMember.2.trans secondMember.2.symm) sameStamp

theorem DistinctVersions.mono
    {entries part : List SSTableEntry} (distinct : DistinctVersions entries)
    (subset : ∀ entry ∈ part, entry ∈ entries) : DistinctVersions part :=
  fun first firstMember second secondMember =>
    distinct first (subset first firstMember) second
      (subset second secondMember)

theorem latest_eq_some_iff
    {entries : List SSTableEntry} (distinct : DistinctVersions entries)
    {key : String} {entry : SSTableEntry} :
    latest entries key = some entry ↔
      (entry ∈ entries ∧ entry.key = key) ∧
        ∀ other ∈ entries, other.key = key →
          other.timestamp ≤ entry.timestamp := by
  rw [latest, newest_eq_some_iff (distinct.versionsOf key)]
  simp only [mem_versionsOf, and_imp]

theorem latest_eq_none_iff
    {entries : List SSTableEntry} {key : String} :
    latest entries key = none ↔ ∀ entry ∈ entries, entry.key ≠ key := by
  rw [latest, newest_eq_none_iff, List.eq_nil_iff_forall_not_mem]
  simp only [mem_versionsOf, not_and]

theorem latest_congr
    {entries entries' : List SSTableEntry} (distinct : DistinctVersions entries)
    (same : ∀ entry, entry ∈ entries' ↔ entry ∈ entries) (key : String) :
    latest entries' key = latest entries key :=
  newest_congr (distinct.versionsOf key) fun entry => by
    rw [mem_versionsOf, mem_versionsOf, same]

/-- Level 0 is read as the newest version over all its tables. -/
theorem getFromLevel0_eq
    {files : List SSTable} (wellFormed : ∀ table ∈ files, table.WellFormed)
    (distinct : DistinctVersions (allEntries files)) (key : String) :
    getFromLevel0 files key = latest (allEntries files) key := by
  refine newest_congr (distinct.versionsOf key) fun entry => ?_
  rw [mem_versionsOf, mem_allEntries, List.mem_filterMap]
  constructor
  · rintro ⟨table, member, found⟩
    have fileMember := List.mem_of_mem_filter member
    obtain ⟨inTable, sameKey⟩ :=
      (wellFormed table fileMember).lookup_eq_some_iff.mp found
    exact ⟨⟨table, fileMember, inTable⟩, sameKey⟩
  · rintro ⟨⟨table, member, inTable⟩, rfl⟩
    have whole := wellFormed table member
    refine ⟨table, ?_, whole.lookup_eq_some_iff.mpr ⟨inTable, rfl⟩⟩
    exact List.mem_filter.mpr ⟨member, whole.keyMayExist inTable⟩

/-! ## Levels above 0 -/

/-- Tables ordered by their largest keys. -/
def LargestSorted (files : List SSTable) : Prop :=
  files.Pairwise (fun first second => first.largestKey ≤ second.largestKey)

/-- In such a level the search comes to the first table whose largest key is
not below the key. -/
theorem getFromLevel_succ_eq
    {files : List SSTable} (sorted : LargestSorted files)
    (level : Nat) (key : String) :
    getFromLevel (level + 1) files key =
      (files.find? fun table => ¬ table.largestKey < key).bind
        (·.lookup key) := by
  let below := fun table : SSTable => decide (table.largestKey < key)
  have partitioned : Partitioned below (files.takeWhile below)
      (files.dropWhile below) := by
    refine ⟨fun table member => List.mem_takeWhile_imp member, ?_⟩
    intro table member
    cases back : files.dropWhile below with
    | nil => simp [back] at member
    | cons first rest =>
        have firstAbove : below first = false := by
          have stopped := List.head?_dropWhile_not below files
          simpa [back] using stopped
        have backSorted : LargestSorted (first :: rest) := by
          rw [← back]
          exact List.Pairwise.sublist (List.dropWhile_sublist below) sorted
        rw [back] at member
        rcases List.mem_cons.mp member with here | behind
        · rw [here]
          exact firstAbove
        · have larger := (List.pairwise_cons.mp backSorted).1 table behind
          simp only [below, decide_eq_false_iff_not, not_lt] at firstAbove ⊢
          exact firstAbove.trans larger
  have point := partitionPoint_eq partitioned
  rw [List.takeWhile_append_dropWhile] at point
  have found : files[(files.takeWhile below).length]? =
      files.find? fun table => ¬ table.largestKey < key := by
    have split : files[(files.takeWhile below).length]? =
        (files.takeWhile below ++ files.dropWhile below)[
          (files.takeWhile below).length]? := by
      rw [List.takeWhile_append_dropWhile]
    have head := List.find?_not_eq_head?_dropWhile below files
    rw [split, List.getElem?_append_right (Nat.le_refl _), Nat.sub_self,
      ← List.head?_eq_getElem?, ← head]
    simp [below]
  rw [getFromLevel, findSstableForKey, point, found]
  cases candidate : files.find? fun table => ¬ table.largestKey < key with
  | none => rfl
  | some table =>
      by_cases inRange : table.smallestKey ≤ key ∧ key ≤ table.largestKey
      · simp only [if_pos inRange]
      · have outside : table.keyMayExist key = false := by
          simp only [SSTable.keyMayExist, decide_eq_false_iff_not, not_not]
          by_contra within
          rw [not_or, not_lt, not_lt] at within
          exact inRange within
        simp [if_neg inRange, SSTable.lookup, outside]

/-- Tables whose entries, one table after the other, are in strict key
order. -/
structure Leveled (files : List SSTable) : Prop where
  wellFormed : ∀ table ∈ files, table.WellFormed
  ordered : (allEntries files).Pairwise
    (fun first second => first.key < second.key)

theorem Leveled.apart
    {files : List SSTable} (leveled : Leveled files) :
    files.Pairwise fun first second =>
      ∀ low ∈ first.entries, ∀ high ∈ second.entries, low.key < high.key := by
  have ordered := leveled.ordered
  rw [allEntries, List.flatMap_def, List.pairwise_flatten,
    List.pairwise_map] at ordered
  exact ordered.2

theorem Leveled.largest_lt
    {files : List SSTable} (leveled : Leveled files) :
    files.Pairwise
      (fun first second => first.largestKey < second.largestKey) := by
  refine leveled.apart.imp_of_mem ?_
  intro first second firstMember secondMember apart
  obtain ⟨large, largeMember, largeKey⟩ :=
    (leveled.wellFormed first firstMember).exists_largest
  obtain ⟨other, otherMember, otherKey⟩ :=
    (leveled.wellFormed second secondMember).exists_largest
  rw [← largeKey, ← otherKey]
  exact apart large largeMember other otherMember

theorem Leveled.disjoint
    {files : List SSTable} (leveled : Leveled files) :
    files.Pairwise
      (fun first second => first.largestKey < second.smallestKey) := by
  apply leveled.apart.imp_of_mem
  intro first second firstMember secondMember apart
  have largest := (leveled.wellFormed first firstMember).exists_largest
  have smallest := (leveled.wellFormed second secondMember).exists_smallest
  obtain ⟨large, largeMember, largeKey⟩ := largest
  obtain ⟨small, smallMember, smallKey⟩ := smallest
  rw [← largeKey, ← smallKey]
  exact apart large largeMember small smallMember

/-- A table that reaches past a key of another table reaches past all of
it. -/
theorem Leveled.largest_lt_of_le
    {files : List SSTable} (leveled : Leveled files)
    {first second : SSTable} (firstMember : first ∈ files)
    (secondMember : second ∈ files) (different : first ≠ second)
    {low high : SSTableEntry} (lowMember : low ∈ first.entries)
    (highMember : high ∈ second.entries) (order : low.key ≤ high.key) :
    first.largestKey < high.key := by
  have apart := List.Pairwise.forall_of_forall_of_flip
    (R := fun first second : SSTable => first ≠ second →
      (∀ low ∈ first.entries, ∀ high ∈ second.entries, low.key < high.key) ∨
        ∀ low ∈ second.entries, ∀ high ∈ first.entries, low.key < high.key)
    (fun _ _ same => absurd rfl same)
    (leveled.apart.imp fun less _ => Or.inl less)
    (leveled.apart.imp fun less _ => Or.inr less)
  rcases apart firstMember secondMember different with before | behind
  · obtain ⟨large, largeMember, largeKey⟩ :=
      (leveled.wellFormed first firstMember).exists_largest
    rw [← largeKey]
    exact before large largeMember high highMember
  · exact absurd order (behind high highMember low lowMember).not_ge

theorem Leveled.largestSorted
    {files : List SSTable} (leveled : Leveled files) :
    LargestSorted files :=
  leveled.largest_lt.imp fun less => less.le

theorem Leveled.eq_of_key_eq
    {files : List SSTable} (leveled : Leveled files)
    {first second : SSTableEntry} (firstMember : first ∈ allEntries files)
    (secondMember : second ∈ allEntries files)
    (sameKey : first.key = second.key) : first = second := by
  have injective := List.inj_on_of_nodup_map (f := SSTableEntry.key)
    (l := allEntries files) (by
      rw [List.Nodup, List.pairwise_map]
      exact leveled.ordered.imp fun less => less.ne)
  exact injective firstMember secondMember sameKey

theorem Leveled.getFromLevel_eq_some_iff
    {files : List SSTable} (leveled : Leveled files) (level : Nat)
    {key : String} {entry : SSTableEntry} :
    getFromLevel (level + 1) files key = some entry ↔
      entry ∈ allEntries files ∧ entry.key = key := by
  rw [getFromLevel_succ_eq leveled.largestSorted, Option.bind_eq_some_iff]
  constructor
  · rintro ⟨table, found, hit⟩
    have member := List.mem_of_find?_eq_some found
    obtain ⟨inTable, sameKey⟩ :=
      (leveled.wellFormed table member).lookup_eq_some_iff.mp hit
    exact ⟨mem_allEntries.mpr ⟨table, member, inTable⟩, sameKey⟩
  · rintro ⟨member, rfl⟩
    obtain ⟨table, fileMember, inTable⟩ := mem_allEntries.mp member
    have whole := leveled.wellFormed table fileMember
    have above := whole.le_largestKey inTable
    cases found : files.find? fun other => ¬ other.largestKey < entry.key with
    | none =>
        rw [List.find?_eq_none] at found
        exact absurd above.not_gt (by simpa using found table fileMember)
    | some other =>
        have otherMember := List.mem_of_find?_eq_some found
        refine ⟨other, rfl, ?_⟩
        have otherWhole := leveled.wellFormed other otherMember
        obtain ⟨large, largeMember, largeKey⟩ := otherWhole.exists_largest
        have otherAbove : entry.key ≤ large.key := by
          have stopped := List.find?_some found
          simp only [decide_eq_true_eq, not_lt] at stopped
          rw [largeKey]
          exact stopped
        obtain ⟨front, back, split, skipped⟩ :=
          List.find?_eq_some_iff_append.mp found |>.2
        rw [otherWhole.lookup_eq_some_iff]
        refine ⟨?_, rfl⟩
        rw [split] at fileMember
        have ordered := leveled.ordered
        rw [split, allEntries_append] at ordered
        rcases List.mem_append.mp fileMember with before | after
        · have below := skipped table before
          simp only [decide_not, Bool.not_not, decide_eq_true_eq] at below
          exact absurd above below.not_ge
        · rcases List.mem_cons.mp after with here | behind
          · rw [← here]
            exact inTable
          · have tail := (List.pairwise_append.mp ordered).2.1
            rw [allEntries, List.flatMap_cons, List.pairwise_append] at tail
            have less := tail.2.2 large largeMember entry
              (mem_allEntries.mpr ⟨table, behind, inTable⟩)
            exact absurd otherAbove less.not_ge

end F4kvsLsm
