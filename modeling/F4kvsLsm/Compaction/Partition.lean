import F4kvsLsm.Compaction.Merge
import Mathlib.Algebra.Order.BigOperators.Group.List

/-!
# How merged entries are cut into tables

Entries go to the current table while they fit.  A table is closed before an
entry that does not fit, so it takes more than the target size only when its
first entry alone does.
-/

namespace F4kvsLsm

/-- A run of entries within the target size, or a single entry. -/
def FitsTarget (size : SSTableEntry → Nat) (targetSize : Nat)
    (run : List SSTableEntry) : Prop :=
  (run.map size).sum ≤ targetSize ∨ run.length = 1

/-- The current run and its size stay together, and an entry is added to it
only when the result fits or the run was empty. -/
theorem cutEntries_fits
    {size : SSTableEntry → Nat} {targetSize : Nat}
    {current : List SSTableEntry} (entries : List SSTableEntry)
    (fits : FitsTarget size targetSize current) :
    ∀ run ∈ cutEntries size targetSize current (current.map size).sum entries,
      FitsTarget size targetSize run := by
  induction entries generalizing current with
  | nil =>
      intro run member
      rw [cutEntries] at member
      split at member
      · exact absurd member List.not_mem_nil
      · rw [List.mem_singleton.mp member]
        exact fits
  | cons entry rest inductionHypothesis =>
      intro run member
      rw [cutEntries] at member
      split at member
      · rcases List.mem_cons.mp member with here | behind
        · rw [here]
          exact fits
        · have alone : FitsTarget size targetSize [entry] := Or.inr rfl
          have sizes : ([entry].map size).sum = size entry := by simp
          rw [← sizes] at behind
          exact inductionHypothesis alone run behind
      · case isFalse room =>
          have sizes : ((current ++ [entry]).map size).sum =
              (current.map size).sum + size entry := by simp
          have longer : FitsTarget size targetSize (current ++ [entry]) := by
            rcases Decidable.em (current = []) with empty | nonempty
            · rw [empty]
              exact Or.inr rfl
            · left
              rw [sizes]
              exact Nat.le_of_not_gt fun large => room ⟨large, nonempty⟩
          rw [← sizes] at member
          exact inductionHypothesis longer run member

section

variable {config : CompactionConfig} {output : OutputFiles} {level : Nat}

theorem mem_createNewSstables
    {entries : List SSTableEntry} {table : SSTable}
    (member : table ∈ createNewSstables config output level entries) :
    table.entries ∈ cutEntries (estimatedSstableBytes config.jsonLen)
      (max config.targetSize 1) [] 0 entries := by
  have cut := @createNewSstables_entries config output level entries
  rw [← cut]
  exact List.mem_map_of_mem member

theorem createNewSstables_nonempty
    {entries : List SSTableEntry} {table : SSTable}
    (member : table ∈ createNewSstables config output level entries) :
    table.entries ≠ [] :=
  (cutEntries_spec _ _ [] 0 entries).2 _ (mem_createNewSstables member)

theorem createNewSstables_fits
    {entries : List SSTableEntry} {table : SSTable}
    (member : table ∈ createNewSstables config output level entries) :
    FitsTarget (estimatedSstableBytes config.jsonLen)
      (max config.targetSize 1) table.entries :=
  cutEntries_fits entries (Or.inl (Nat.zero_le _)) _
    (mem_createNewSstables member)

/-- Entries in strict key order are cut into tables that hold an entry each,
repeat none and drop none, have key ranges one after the other, and take the
target size at most, unless they hold a single entry. -/
theorem createNewSstables_partition
    (config : CompactionConfig) (output : OutputFiles) (level : Nat)
    {entries : List SSTableEntry}
    (increasing : entries.Pairwise
      fun first second => first.key < second.key) :
    let tables := createNewSstables config output level entries
    (∀ table ∈ tables, table.entries ≠ []) ∧
      (tables.map (·.entries)).flatten = entries ∧
      tables.Pairwise
        (fun first second => first.largestKey < second.smallestKey) ∧
      (∀ table ∈ tables, table.smallestKey ≤ table.largestKey) ∧
      ∀ table ∈ tables,
        (table.entries.map (estimatedSstableBytes config.jsonLen)).sum ≤
            max config.targetSize 1 ∨
          table.entries.length = 1 := by
  have leveled : Leveled (createNewSstables config output level entries) :=
    createNewSstables_leveled increasing
  refine ⟨fun table => createNewSstables_nonempty, ?_, leveled.disjoint, ?_,
    fun table => createNewSstables_fits⟩
  · rw [createNewSstables_entries]
    exact (cutEntries_spec _ _ [] 0 entries).1
  · intro table member
    have wellFormed := leveled.wellFormed table member
    obtain ⟨large, held, largest⟩ := wellFormed.exists_largest
    rw [← largest]
    exact wellFormed.smallestKey_le held

/-- With the smallest target each entry gets its own table. -/
theorem createNewSstables_partition_two :
    ((createNewSstables
        ⟨.leveled, 2, 4, fun _ => 1, 0, fun _ => 0⟩
        ⟨fun _ => 7, id, fun _ => ⟨1, 7, by decide⟩⟩ 1
        [⟨"a", .bool true, 1, false⟩, ⟨"b", .null, 2, true⟩]).map
      (·.entries)).flatten =
        [⟨"a", .bool true, 1, false⟩, ⟨"b", .null, 2, true⟩] :=
  (createNewSstables_partition _ _ _ (by decide)).2.1

end

/-! ## As few tables as can be -/

/-- A division of entries, in their order, into runs within the target
size. -/
structure Division (size : SSTableEntry → Nat) (targetSize : Nat)
    (entries : List SSTableEntry) (runs : List (List SSTableEntry)) :
    Prop where
  flat : runs.flatten = entries
  fits : ∀ run ∈ runs, FitsTarget size targetSize run

section

variable {size : SSTableEntry → Nat} {targetSize : Nat}

theorem FitsTarget.sublist
    {part run : List SSTableEntry} (fits : FitsTarget size targetSize run)
    (sub : part.Sublist run) : FitsTarget size targetSize part := by
  rcases fits with small | single
  · have fewer := (sub.map size).sum_le_sum fun _ _ => Nat.zero_le _
    exact Or.inl (Nat.le_trans fewer small)
  · obtain ⟨entry, rfl⟩ := List.length_eq_one_iff.mp single
    rcases List.sublist_singleton.mp sub with rfl | rfl
    · exact Or.inl (Nat.zero_le _)
    · exact Or.inr rfl

/-- The entries at the end need no more runs than all of them. -/
theorem Division.ending
    {front back : List SSTableEntry} {runs : List (List SSTableEntry)}
    (division : Division size targetSize (front ++ back) runs) :
    ∃ rest, Division size targetSize back rest ∧
      rest.length ≤ runs.length := by
  induction runs generalizing front with
  | nil =>
      have nothing := List.append_eq_nil_iff.mp division.flat.symm
      rw [nothing.2]
      exact ⟨[], ⟨rfl, division.fits⟩, Nat.le_refl _⟩
  | cons run runs inductionHypothesis =>
      have fits := List.forall_mem_cons.mp division.fits
      have flat := division.flat
      rw [List.flatten_cons, List.append_eq_append_iff] at flat
      rcases flat with ⟨middle, -, behind⟩ | ⟨middle, split, rest⟩
      · obtain ⟨rest, divided, fewer⟩ :=
          inductionHypothesis ⟨behind, fits.2⟩
        exact ⟨rest, divided, Nat.le_succ_of_le fewer⟩
      · refine ⟨middle :: runs, ⟨rest.symm, ?_⟩, Nat.le_refl _⟩
        rw [split] at fits
        exact List.forall_mem_cons.mpr
          ⟨fits.1.sublist (List.sublist_append_right _ _), fits.2⟩

/-- The entry that does not fit starts a run, or comes later than the first
one. -/
theorem Division.behind
    {current rest : List SSTableEntry} {entry : SSTableEntry}
    {runs : List (List SSTableEntry)}
    (division : Division size targetSize (current ++ entry :: rest) runs)
    (full : ¬ FitsTarget size targetSize (current ++ [entry])) :
    ∃ later, Division size targetSize (entry :: rest) later ∧
      later.length < runs.length := by
  cases runs with
  | nil =>
      have nothing := List.append_eq_nil_iff.mp division.flat.symm
      exact absurd nothing.2 (List.cons_ne_nil _ _)
  | cons run runs =>
      have fits := List.forall_mem_cons.mp division.fits
      have flat := division.flat
      rw [List.flatten_cons, List.append_eq_append_iff] at flat
      rcases flat with ⟨middle, -, behind⟩ | ⟨middle, split, behind⟩
      · obtain ⟨later, divided, fewer⟩ :=
          Division.ending (Division.mk behind fits.2)
        exact ⟨later, divided, Nat.lt_succ_of_le fewer⟩
      · cases middle with
        | nil =>
            exact ⟨runs, ⟨behind.symm, fits.2⟩, Nat.lt_succ_self _⟩
        | cons first middle =>
            obtain ⟨rfl, -⟩ := List.cons.inj behind
            refine absurd (fits.1.sublist ?_) full
            rw [split]
            exact (List.append_sublist_append_left current).mpr
              ((List.nil_sublist middle).cons_cons _)

/-- No division has fewer runs than the one that fills each table as far as
the entries fit. -/
theorem cutEntries_length_le
    {current : List SSTableEntry} (entries : List SSTableEntry)
    {runs : List (List SSTableEntry)}
    (division : Division size targetSize (current ++ entries) runs) :
    (cutEntries size targetSize current (current.map size).sum
      entries).length ≤ runs.length := by
  induction entries generalizing current runs with
  | nil =>
      rw [cutEntries]
      split
      · exact Nat.zero_le _
      · case isFalse some =>
          refine List.length_pos_of_ne_nil fun none => some ?_
          have flat := division.flat
          rw [none, List.append_nil] at flat
          rw [← flat]
          rfl
  | cons entry rest inductionHypothesis =>
      have alone : ([entry].map size).sum = size entry := by simp
      have longer : ((current ++ [entry]).map size).sum =
          (current.map size).sum + size entry := by simp
      rw [cutEntries]
      split
      · case isTrue full =>
          have tooLarge :
              ¬ FitsTarget size targetSize (current ++ [entry]) := by
            rintro (small | single)
            · rw [longer] at small
              exact absurd small (Nat.not_le_of_gt full.1)
            · rw [List.length_append] at single
              exact full.2 (List.length_eq_zero_iff.mp
                (Nat.succ_injective single))
          obtain ⟨later, divided, fewer⟩ := division.behind tooLarge
          have fewest := @inductionHypothesis [entry] later divided
          rw [alone] at fewest
          exact Nat.lt_of_le_of_lt fewest fewer
      · rw [← longer]
        refine inductionHypothesis ?_
        rw [List.append_assoc]
        exact division

/-- The cut stays below a number of tables exactly when some division
does. -/
theorem cutEntries_length_lt_iff
    (size : SSTableEntry → Nat) (targetSize count : Nat)
    (entries : List SSTableEntry) :
    (cutEntries size targetSize [] 0 entries).length < count ↔
      ∃ runs, Division size targetSize entries runs ∧
        runs.length < count := by
  constructor
  · intro fewer
    refine ⟨_, ⟨(cutEntries_spec size targetSize [] 0 entries).1, ?_⟩, fewer⟩
    exact cutEntries_fits entries (Or.inl (Nat.zero_le _))
  · rintro ⟨runs, division, fewer⟩
    exact Nat.lt_of_le_of_lt (cutEntries_length_le entries division) fewer

end

end F4kvsLsm
