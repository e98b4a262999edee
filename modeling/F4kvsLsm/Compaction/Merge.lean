import F4kvsLsm.Compaction.Manager

/-!
# What a merge keeps

The merged tables hold the newest version of every key of the inputs, unless
that version is a tombstone, and they are leveled.
-/

namespace F4kvsLsm

open Versions

/-! ## Sorting and removing duplicates -/

theorem sortEntries_sorted (entries : List SSTableEntry) :
    (sortEntries entries).Pairwise EntryOrder := by
  have total : Std.Total EntryOrder := by
    refine ⟨fun first second => ?_⟩
    rcases lt_trichotomy first.key second.key with less | same | more
    · exact Or.inl (Or.inl less)
    · rcases Nat.le_total second.timestamp first.timestamp with old | new
      · exact Or.inl (Or.inr ⟨same, old⟩)
      · exact Or.inr (Or.inr ⟨same.symm, new⟩)
    · exact Or.inr (Or.inl more)
  have trans : IsTrans SSTableEntry EntryOrder := by
    refine ⟨fun first second third early late => ?_⟩
    rcases early with less | ⟨same, newer⟩
    · rcases late with less' | ⟨same', -⟩
      · exact Or.inl (less.trans less')
      · exact Or.inl (same' ▸ less)
    · rcases late with less' | ⟨same', newer'⟩
      · exact Or.inl (same ▸ less')
      · exact Or.inr ⟨same.trans same', newer'.trans newer⟩
  exact List.pairwise_insertionSort EntryOrder entries

@[simp]
theorem mem_sortEntries {entries : List SSTableEntry} {entry : SSTableEntry} :
    entry ∈ sortEntries entries ↔ entry ∈ entries :=
  List.mem_insertionSort EntryOrder

theorem mem_dedupLoop
    {seenKeys : List String} {entries : List SSTableEntry}
    {entry : SSTableEntry} :
    entry ∈ dedupLoop seenKeys entries ↔
      entry.key ∉ seenKeys ∧ entry.deleted = false ∧
        entries.find? (fun other => other.key = entry.key) = some entry := by
  induction entries generalizing seenKeys with
  | nil => simp [dedupLoop]
  | cons first rest inductionHypothesis =>
      rw [dedupLoop, List.find?_cons]
      by_cases seen : first.key ∈ seenKeys
      · rw [if_pos seen, inductionHypothesis]
        by_cases same : first.key = entry.key
        · have excluded : ¬ entry.key ∉ seenKeys := by
            rw [← same]
            exact not_not.mpr seen
          simp [excluded]
        · simp [same]
      · rw [if_neg seen]
        by_cases same : first.key = entry.key
        · have behind : entry ∉ dedupLoop (first.key :: seenKeys) rest := by
            rw [inductionHypothesis]
            simp [same]
          rw [same] at behind
          have fresh : entry.key ∉ seenKeys := same ▸ seen
          cases deleted : first.deleted with
          | true =>
              rw [if_pos rfl]
              simp only [same, decide_true, Option.some.injEq]
              constructor
              · exact fun member => absurd member behind
              · rintro ⟨-, live, rfl⟩
                rw [deleted] at live
                exact absurd live (by simp)
          | false =>
              rw [if_neg (by simp), List.mem_cons]
              simp only [same, decide_true, Option.some.injEq]
              constructor
              · rintro (rfl | member)
                · exact ⟨seen, deleted, rfl⟩
                · exact absurd member behind
              · rintro ⟨-, -, rfl⟩
                exact Or.inl rfl
        · have different : entry.key ≠ first.key := Ne.symm same
          have notFirst : entry ≠ first := fun equal => different (by rw [equal])
          cases deleted : first.deleted with
          | true =>
              rw [if_pos rfl, inductionHypothesis]
              simp [same, different]
          | false =>
              rw [if_neg (by simp), List.mem_cons, inductionHypothesis]
              simp [same, different, notFirst]

theorem dedupLoop_sublist
    (seenKeys : List String) (entries : List SSTableEntry) :
    (dedupLoop seenKeys entries).Sublist entries := by
  induction entries generalizing seenKeys with
  | nil => exact List.Sublist.refl []
  | cons first rest inductionHypothesis =>
      rw [dedupLoop]
      split
      · exact (inductionHypothesis _).cons first
      · split
        · exact (inductionHypothesis _).cons first
        · exact (inductionHypothesis _).cons_cons first

theorem dedupLoop_sorted
    (seenKeys : List String) {entries : List SSTableEntry}
    (sorted : entries.Pairwise EntryOrder) :
    (dedupLoop seenKeys entries).Pairwise
      (fun first second => first.key < second.key) := by
  induction entries generalizing seenKeys with
  | nil => exact List.Pairwise.nil
  | cons first rest inductionHypothesis =>
      obtain ⟨least, restSorted⟩ := List.pairwise_cons.mp sorted
      rw [dedupLoop]
      split
      · exact inductionHypothesis _ restSorted
      · split
        · exact inductionHypothesis _ restSorted
        · refine List.pairwise_cons.mpr
            ⟨?_, inductionHypothesis _ restSorted⟩
          intro other member
          have unseen := (mem_dedupLoop.mp member).1
          have different : first.key ≠ other.key := by
            intro same
            exact unseen (by simp [same])
          rcases least other ((dedupLoop_sublist _ _).subset member) with
            less | ⟨same, -⟩
          · exact less
          · exact absurd same different

theorem find?_sortEntries
    {entries : List SSTableEntry} (distinct : DistinctVersions entries)
    (key : String) :
    (sortEntries entries).find? (fun other => other.key = key) =
      latest entries key := by
  have sorted := sortEntries_sorted entries
  cases found : (sortEntries entries).find?
      (fun other => other.key = key) with
  | none =>
      rw [List.find?_eq_none] at found
      refine (latest_eq_none_iff.mpr fun entry member same => ?_).symm
      exact found entry (mem_sortEntries.mpr member) (by simpa using same)
  | some entry =>
      obtain ⟨sameKey, front, back, split, skipped⟩ :=
        List.find?_eq_some_iff_append.mp found
      rw [decide_eq_true_eq] at sameKey
      refine ((latest_eq_some_iff distinct).mpr
        ⟨⟨?_, sameKey⟩, fun other member otherKey => ?_⟩).symm
      · exact mem_sortEntries.mp (List.mem_of_find?_eq_some found)
      · rw [← mem_sortEntries, split] at member
        rw [split] at sorted
        rcases List.mem_append.mp member with before | after
        · exact absurd otherKey (by simpa using skipped other before)
        · rcases List.mem_cons.mp after with here | behind
          · rw [here]
          · have order := (List.pairwise_cons.mp
              (List.pairwise_append.mp sorted).2.1).1 other behind
            rcases order with less | ⟨-, newer⟩
            · rw [sameKey, otherKey] at less
              exact absurd less (lt_irrefl _)
            · exact newer

/-- The newest versions that are not tombstones. -/
theorem mem_deduplicate_sortEntries
    {entries : List SSTableEntry} (distinct : DistinctVersions entries)
    {entry : SSTableEntry} :
    entry ∈ deduplicateEntries (sortEntries entries) ↔
      latest entries entry.key = some entry ∧ entry.deleted = false := by
  have sorted : DistinctVersions (sortEntries entries) :=
    distinct.mono fun other member => mem_sortEntries.mp member
  have same : latest (sortEntries entries) entry.key =
      latest entries entry.key :=
    latest_congr distinct (fun other => mem_sortEntries) entry.key
  rw [deduplicateEntries, mem_dedupLoop, find?_sortEntries sorted, same]
  simp only [List.not_mem_nil, not_false_eq_true, true_and]
  exact And.comm

theorem mem_deduplicateEntries
    {files : List SSTable} (distinct : DistinctVersions (allEntries files))
    {entry : SSTableEntry} :
    entry ∈ deduplicateEntries (mergeSstablesSafe files) ↔
      latest (allEntries files) entry.key = some entry ∧
        entry.deleted = false :=
  mem_deduplicate_sortEntries distinct

theorem deduplicateEntries_sorted (entries : List SSTableEntry) :
    (deduplicateEntries entries).Pairwise
      (fun first second => first.key < second.key) :=
  dedupLoop_sorted [] (sortEntries_sorted entries)

/-! ## Cutting into tables -/

theorem cutEntries_spec
    (size : SSTableEntry → Nat) (targetSize : Nat)
    (current : List SSTableEntry) (currentSize : Nat)
    (entries : List SSTableEntry) :
    (cutEntries size targetSize current currentSize entries).flatten =
        current ++ entries ∧
      ∀ run ∈ cutEntries size targetSize current currentSize entries,
        run ≠ [] := by
  induction entries generalizing current currentSize with
  | nil =>
      rw [cutEntries]
      cases current with
      | nil => simp
      | cons first rest => simp
  | cons entry rest inductionHypothesis =>
      rw [cutEntries]
      split
      · case isTrue full =>
          obtain ⟨flat, nonempty⟩ := inductionHypothesis [entry] (size entry)
          constructor
          · rw [List.flatten_cons, flat]
            rfl
          · intro run member
            rcases List.mem_cons.mp member with here | behind
            · rw [here]
              exact full.2
            · exact nonempty run behind
      · obtain ⟨flat, nonempty⟩ :=
          inductionHypothesis (current ++ [entry]) (currentSize + size entry)
        exact ⟨by rw [flat, List.append_assoc]; rfl, nonempty⟩

section

variable {config : CompactionConfig} {output : OutputFiles} {level : Nat}

theorem createNewSstables_entries (entries : List SSTableEntry) :
    (createNewSstables config output level entries).map (·.entries) =
      cutEntries (estimatedSstableBytes config.jsonLen)
        (max config.targetSize 1) [] 0 entries := by
  refine List.ext_getElem? fun index => ?_
  rw [createNewSstables, List.getElem?_map, List.getElem?_mapIdx,
    Option.map_map]
  exact Option.map_id'

@[simp]
theorem allEntries_createNewSstables (entries : List SSTableEntry) :
    allEntries (createNewSstables config output level entries) = entries := by
  rw [allEntries, List.flatMap_def, createNewSstables_entries]
  exact (cutEntries_spec _ _ [] 0 entries).1

theorem createNewSstables_leveled
    {entries : List SSTableEntry}
    (sorted : entries.Pairwise
      (fun first second => first.key < second.key)) :
    Leveled (createNewSstables config output level entries) := by
  refine ⟨?_, by rw [allEntries_createNewSstables]; exact sorted⟩
  intro table member
  obtain ⟨flat, nonempty⟩ := cutEntries_spec
    (estimatedSstableBytes config.jsonLen) (max config.targetSize 1) [] 0
    entries
  rw [createNewSstables, List.mem_mapIdx] at member
  obtain ⟨index, bound, rfl⟩ := member
  have run := List.getElem_mem bound
  refine ⟨(output.info index).sized, nonempty _ run, ?_⟩
  refine List.Pairwise.sublist ?_ sorted
  have part := List.sublist_flatten_of_mem run
  rw [flat] at part
  exact part

theorem mergedTables_leveled (files : List SSTable) :
    Leveled (mergedTables config output level files) :=
  createNewSstables_leveled (deduplicateEntries_sorted _)

theorem mergedTables_level
    {files : List SSTable} {table : SSTable}
    (member : table ∈ mergedTables config output level files) :
    table.name.level = level := by
  rw [mergedTables, createNewSstables, List.mem_mapIdx] at member
  obtain ⟨index, bound, rfl⟩ := member
  rfl

/-- The merged tables hold the newest live versions of the inputs. -/
theorem mem_mergedTables
    {files : List SSTable} (distinct : DistinctVersions (allEntries files))
    {entry : SSTableEntry} :
    entry ∈ allEntries (mergedTables config output level files) ↔
      latest (allEntries files) entry.key = some entry ∧
        entry.deleted = false := by
  rw [mergedTables, allEntries_createNewSstables,
    mem_deduplicateEntries distinct]

theorem mem_mergedTables_sub
    {files : List SSTable} (distinct : DistinctVersions (allEntries files))
    {entry : SSTableEntry}
    (member : entry ∈ allEntries (mergedTables config output level files)) :
    entry ∈ allEntries files :=
  ((latest_eq_some_iff distinct).mp
    ((mem_mergedTables distinct).mp member).1).1.1

end

end F4kvsLsm
