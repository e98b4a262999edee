import F4kvsLsm.Compaction.Reads

/-!
# One compaction of one level

What the tables of a level hold after a compaction, for level 0 by newest
versions and for level 1 by membership.
-/

namespace F4kvsLsm

open Versions

/-- The tables that a compaction of `level` merges. -/
def compactedGroup (config : CompactionConfig) (order : List Nat)
    (levels : Nat → List SSTable) (level : Nat) : List SSTable :=
  selectSstablesForCompaction config order level (levels level)

theorem latest_congr_key
    {entries entries' : List SSTableEntry} (distinct : DistinctVersions entries)
    {key : String}
    (same : ∀ entry, entry.key = key → (entry ∈ entries' ↔ entry ∈ entries)) :
    latest entries' key = latest entries key := by
  refine newest_congr (distinct.versionsOf key) fun entry => ?_
  rw [mem_versionsOf, mem_versionsOf]
  constructor
  · rintro ⟨member, rfl⟩
    exact ⟨(same entry rfl).mp member, rfl⟩
  · rintro ⟨member, rfl⟩
    exact ⟨(same entry rfl).mpr member, rfl⟩

theorem latest_mono
    {entries part : List SSTableEntry} (distinct : DistinctVersions entries)
    (subset : ∀ entry ∈ part, entry ∈ entries) {key : String}
    {entry : SSTableEntry} (found : latest entries key = some entry)
    (member : entry ∈ part) : latest part key = some entry := by
  obtain ⟨⟨-, sameKey⟩, newer⟩ := (latest_eq_some_iff distinct).mp found
  refine (latest_eq_some_iff (distinct.mono subset)).mpr
    ⟨⟨member, sameKey⟩, ?_⟩
  exact fun other otherMember => newer other (subset other otherMember)

/-! ## Merges that may be incomplete -/

/-- Some entries of `all` stay, and some newest live versions of `group` have
been written.  Everything that does not stay has been merged. -/
structure PartialMerge (all group stays written : List SSTableEntry) :
    Prop where
  distinct : DistinctVersions all
  stays_sub : ∀ entry ∈ stays, entry ∈ all
  group_sub : ∀ entry ∈ group, entry ∈ all
  cover : ∀ entry ∈ all, entry ∈ stays ∨ entry ∈ group
  newest : ∀ entry ∈ written,
    latest group entry.key = some entry ∧ entry.deleted = false
  complete : (∀ entry ∈ all, entry ∈ stays) ∨
    ∀ entry, latest group entry.key = some entry → entry.deleted = false →
      entry ∈ written

namespace PartialMerge

variable {all group stays written : List SSTableEntry}
variable {key : String} {entry : SSTableEntry}

theorem written_sub
    (merge : PartialMerge all group stays written)
    (member : entry ∈ written) : entry ∈ all :=
  merge.group_sub entry
    ((latest_eq_some_iff (merge.distinct.mono merge.group_sub)).mp
      (merge.newest entry member).1).1.1

theorem sub
    (merge : PartialMerge all group stays written)
    (member : entry ∈ stays ++ written) : entry ∈ all := by
  rcases List.mem_append.mp member with old | new
  · exact merge.stays_sub entry old
  · exact merge.written_sub new

theorem latest_none
    (merge : PartialMerge all group stays written)
    (found : latest all key = none) :
    latest (stays ++ written) key = none := by
  rw [latest_eq_none_iff] at found ⊢
  exact fun entry member => found entry (merge.sub member)

/-- A newest version that is live, or that stays, is still the newest. -/
theorem latest_kept
    (merge : PartialMerge all group stays written)
    (found : latest all key = some entry)
    (kept : entry.deleted = false ∨ entry ∈ stays) :
    latest (stays ++ written) key = some entry := by
  obtain ⟨⟨member, sameKey⟩, -⟩ :=
    (latest_eq_some_iff merge.distinct).mp found
  refine latest_mono merge.distinct (fun other => merge.sub) found ?_
  rw [List.mem_append]
  by_cases old : entry ∈ stays
  · exact Or.inl old
  · right
    have inGroup := (merge.cover entry member).resolve_left old
    rcases merge.complete with everything | whole
    · exact absurd (everything entry member) old
    · refine whole entry ?_ (kept.resolve_right old)
      rw [sameKey]
      exact latest_mono merge.distinct merge.group_sub found inGroup

/-- A merged tombstone uncovers what stays. -/
theorem latest_dropped
    (merge : PartialMerge all group stays written)
    (found : latest all key = some entry)
    (deleted : entry.deleted = true) (gone : entry ∉ stays) :
    latest (stays ++ written) key = latest stays key := by
  obtain ⟨⟨member, -⟩, -⟩ := (latest_eq_some_iff merge.distinct).mp found
  have inGroup := (merge.cover entry member).resolve_left gone
  have groupLatest :=
    latest_mono merge.distinct merge.group_sub found inGroup
  refine latest_congr_key (merge.distinct.mono merge.stays_sub)
    fun other otherKey => ?_
  rw [List.mem_append, or_iff_left_iff_imp]
  intro new
  obtain ⟨otherLatest, live⟩ := merge.newest other new
  rw [otherKey, groupLatest, Option.some.injEq] at otherLatest
  rw [← otherLatest, deleted] at live
  exact absurd live (by simp)

/-- What is below a merged tombstone decides whether a read of its key
changes. -/
theorem visible_iff
    (merge : PartialMerge all group stays written) (key : String)
    (low : Option SSTableEntry) :
    ((latest (stays ++ written) key).or low).bind SSTableEntry.visible =
        ((latest all key).or low).bind SSTableEntry.visible ↔
      ∀ tombstone, latest all key = some tombstone →
        tombstone.deleted = true → tombstone ∉ stays →
        (∃ older, latest stays key = some older ∧ older.deleted = true) ∨
          latest stays key = none ∧
            low.bind SSTableEntry.visible = none := by
  cases found : latest all key with
  | none =>
      rw [merge.latest_none found]
      simp
  | some entry =>
      simp only [Option.some_or, Option.bind_some, Option.some.injEq]
      by_cases deleted : entry.deleted = true
      · have hidden := entry.visible_eq_none_iff.mpr deleted
        by_cases old : entry ∈ stays
        · rw [merge.latest_kept found (Or.inr old)]
          simp only [Option.some_or, Option.bind_some, true_iff]
          rintro tombstone rfl - gone
          exact absurd old gone
        · rw [merge.latest_dropped found deleted old, hidden]
          simp only [forall_eq', deleted, old, not_false_eq_true,
            true_implies]
          cases latest stays key with
          | none => simp
          | some older => simp [SSTableEntry.visible_eq_none_iff]
      · have live : entry.deleted = false := by simpa using deleted
        rw [merge.latest_kept found (Or.inl live)]
        simp only [Option.some_or, Option.bind_some, true_iff]
        rintro tombstone rfl isDeleted
        exact absurd isDeleted deleted

end PartialMerge

section

variable {config : CompactionConfig} {order : List Nat}
variable {output : OutputFiles} {level : Nat} {files group : List SSTable}

theorem mem_allEntries_split
    (names : (files.map (·.name)).Nodup)
    (part : ∀ table ∈ group, table ∈ files) {entry : SSTableEntry} :
    entry ∈ allEntries files ↔
      entry ∈ allEntries (remainingTables files group) ∨
        entry ∈ allEntries group := by
  simp only [mem_allEntries]
  constructor
  · rintro ⟨table, member, inTable⟩
    rcases mem_remainingTables_or names part member with stays | merged
    · exact Or.inl ⟨table, stays, inTable⟩
    · exact Or.inr ⟨table, merged, inTable⟩
  · rintro (⟨table, stays, inTable⟩ | ⟨table, merged, inTable⟩)
    · exact ⟨table, (remainingTables_sublist files group).subset stays,
        inTable⟩
    · exact ⟨table, part table merged, inTable⟩

theorem partialMerge_compacted
    (config : CompactionConfig) (output : OutputFiles) (level : Nat)
    (distinct : DistinctVersions (allEntries files))
    (names : (files.map (·.name)).Nodup)
    (part : ∀ table ∈ group, table ∈ files) :
    PartialMerge (allEntries files) (allEntries group)
      (allEntries (remainingTables files group))
      (allEntries (mergedTables config output level group)) := by
  have split : ∀ entry, entry ∈ allEntries files ↔
      entry ∈ allEntries (remainingTables files group) ∨
        entry ∈ allEntries group :=
    fun _ => mem_allEntries_split names part
  have groupSub : ∀ entry ∈ allEntries group, entry ∈ allEntries files :=
    fun entry member => (split entry).mpr (Or.inr member)
  have merged : ∀ entry, entry ∈ allEntries
      (mergedTables config output level group) ↔
        latest (allEntries group) entry.key = some entry ∧
          entry.deleted = false :=
    fun _ => mem_mergedTables (distinct.mono groupSub)
  constructor
  case distinct => exact distinct
  case stays_sub => exact fun entry member => (split entry).mpr (Or.inl member)
  case group_sub => exact groupSub
  case cover => exact fun entry => (split entry).mp
  case newest => exact fun entry => (merged entry).mp
  case complete =>
    exact Or.inr fun entry found live => (merged entry).mpr ⟨found, live⟩

theorem leveled_compacted
    {front : List SSTable} (leveled : Leveled (front ++ group))
    (names : ((front ++ group).map (·.name)).Nodup) :
    Leveled (remainingTables (front ++ group) group ++
      mergedTables config output level group) := by
  rw [remainingTables_append names]
  have merged : Leveled (mergedTables config output level group) :=
    mergedTables_leveled group
  have ordered := leveled.ordered
  rw [allEntries_append, List.pairwise_append] at ordered
  obtain ⟨frontOrdered, groupOrdered, apart⟩ := ordered
  have distinct : DistinctVersions (allEntries group) := by
    intro first firstMember second secondMember sameKey _
    refine leveled.eq_of_key_eq ?_ ?_ sameKey <;>
      rw [allEntries_append, List.mem_append]
    · exact Or.inr firstMember
    · exact Or.inr secondMember
  constructor
  · intro table member
    rcases List.mem_append.mp member with stays | new
    · exact leveled.wellFormed table (List.mem_append_left _ stays)
    · exact merged.wellFormed table new
  · rw [allEntries_append, List.pairwise_append]
    refine ⟨frontOrdered, merged.ordered, ?_⟩
    intro first firstMember second secondMember
    exact apart first firstMember second
      (mem_mergedTables_sub distinct secondMember)

/-- Without tombstones such a merge keeps every entry. -/
theorem mem_leveled_compacted
    {front : List SSTable} (leveled : Leveled (front ++ group))
    (live : ∀ entry ∈ allEntries (front ++ group), entry.deleted = false)
    (names : ((front ++ group).map (·.name)).Nodup) {entry : SSTableEntry} :
    entry ∈ allEntries (remainingTables (front ++ group) group ++
        mergedTables config output level group) ↔
      entry ∈ allEntries (front ++ group) := by
  have distinct : DistinctVersions (allEntries (front ++ group)) :=
    fun first firstMember second secondMember sameKey _ =>
      leveled.eq_of_key_eq firstMember secondMember sameKey
  have groupSub : ∀ other ∈ allEntries group,
      other ∈ allEntries (front ++ group) := by
    intro other member
    rw [allEntries_append]
    exact List.mem_append_right _ member
  constructor
  · intro member
    rw [allEntries_append] at member
    exact (partialMerge_compacted config output level distinct names
      fun table inGroup => List.mem_append_right _ inGroup).sub member
  · intro member
    rw [remainingTables_append names, allEntries_append, List.mem_append]
    rw [allEntries_append, List.mem_append] at member
    refine member.imp_right fun inGroup => ?_
    have groupDistinct := distinct.mono groupSub
    refine (mem_mergedTables groupDistinct).mpr
      ⟨(latest_eq_some_iff groupDistinct).mpr ⟨⟨inGroup, rfl⟩, ?_⟩,
        live entry (groupSub entry inGroup)⟩
    intro other otherMember otherKey
    rw [leveled.eq_of_key_eq (groupSub other otherMember)
      (groupSub entry inGroup) otherKey]

end

end F4kvsLsm
