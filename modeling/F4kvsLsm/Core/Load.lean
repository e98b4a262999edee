import F4kvsLsm.Compaction.Manager

/-!
# Loading the tables of an earlier run

There is no manifest.  The level of a file is read off its name, whatever
opens is loaded, and the levels above 0 are sorted for the binary search.
-/

namespace F4kvsLsm

/-- `parse_sstable_flush_sequence_from_filename`. -/
def SstableName.flushSequence : SstableName → Option Nat
  | .flush _ sequence => some sequence
  | .compaction _ _ _ => none

/-- The tables of a level; level 0 stays in the order of the directory. -/
def loadLevel (files : List SSTable) (level : Nat) : List SSTable :=
  let found := files.filter fun table => table.name.level = level
  if level = 0 then found else sortLeveledSstables found

/-- The highest number in a flushed file's name. -/
def maxFlushSeq (names : List SstableName) : Nat :=
  (names.filterMap (·.flushSequence)).foldr max 0

/-- The highest timestamp that a flush gave an entry. -/
def maxEntryTs (files : List SSTable) : Nat :=
  (files.filterMap fun table =>
    table.name.flushSequence.map (· + table.entries.length)).foldr max 0

/-- `load_existing_sstables`: the levels, and the next sequence number.
`names` are the names of all files, also of those that do not open. -/
def loadExistingSstables (names : List SstableName) (files : List SSTable)
    (sequenceFile : Nat) : (Nat → List SSTable) × Nat :=
  (loadLevel files,
    max (max (maxFlushSeq names) (maxEntryTs files) + 1) sequenceFile)

/-! ## What is loaded -/

@[simp]
theorem mem_loadLevel {files : List SSTable} {level : Nat} {table : SSTable} :
    table ∈ loadLevel files level ↔
      table ∈ files ∧ table.name.level = level := by
  rw [loadLevel]
  split <;> simp [sortLeveledSstables]

theorem sortLeveledSstables_sorted (files : List SSTable) :
    LargestSorted (sortLeveledSstables files) := by
  let before := fun first second : SSTable =>
    first.largestKey < second.largestKey ∨
      first.largestKey = second.largestKey ∧
        first.smallestKey ≤ second.smallestKey
  have total : Std.Total before := by
    refine ⟨fun first second => ?_⟩
    rcases lt_trichotomy first.largestKey second.largestKey with
      less | same | more
    · exact Or.inl (Or.inl less)
    · rcases le_total first.smallestKey second.smallestKey with low | high
      · exact Or.inl (Or.inr ⟨same, low⟩)
      · exact Or.inr (Or.inr ⟨same.symm, high⟩)
    · exact Or.inr (Or.inl more)
  have trans : IsTrans SSTable before := by
    refine ⟨fun first second third early late => ?_⟩
    rcases early with less | ⟨same, low⟩
    · rcases late with less' | ⟨same', -⟩
      · exact Or.inl (less.trans less')
      · exact Or.inl (same' ▸ less)
    · rcases late with less' | ⟨same', low'⟩
      · exact Or.inl (same ▸ less')
      · exact Or.inr ⟨same.trans same', low.trans low'⟩
  have sorted : (sortLeveledSstables files).Pairwise before :=
    List.pairwise_insertionSort before files
  refine sorted.imp ?_
  rintro first second (less | ⟨same, -⟩)
  · exact less.le
  · exact same.le

theorem loadLevel_sorted (files : List SSTable) (level : Nat) :
    LargestSorted (loadLevel files (level + 1)) := by
  rw [loadLevel]
  exact sortLeveledSstables_sorted _

/-- The table at which a search above level 0 arrives. -/
def reaching (files : List SSTable) (key : String) : Option SSTable :=
  files.find? fun table => ¬ table.largestKey < key

theorem reaching_spec
    {files : List SSTable} (sorted : LargestSorted files) {key : String}
    {table : SSTable} (found : reaching files key = some table) :
    table ∈ files ∧ key ≤ table.largestKey ∧
      ∀ other ∈ files, key ≤ other.largestKey →
        table.largestKey ≤ other.largestKey := by
  have member := List.mem_of_find?_eq_some found
  obtain ⟨reaches, front, back, split, skipped⟩ :=
    List.find?_eq_some_iff_append.mp found
  simp only [decide_eq_true_eq, not_lt] at reaches
  refine ⟨member, reaches, fun other otherMember otherReaches => ?_⟩
  rw [split] at otherMember sorted
  rcases List.mem_append.mp otherMember with before | after
  · have below := skipped other before
    simp only [decide_not, Bool.not_not, decide_eq_true_eq] at below
    exact absurd otherReaches below.not_ge
  · rcases List.mem_cons.mp after with here | behind
    · rw [here]
    · exact (List.pairwise_cons.mp (List.pairwise_append.mp sorted).2.1).1
        other behind

theorem reaching_eq_none_iff {files : List SSTable} {key : String} :
    reaching files key = none ↔
      ∀ table ∈ files, table.largestKey < key := by
  simp [reaching]

/-- In a level without overlaps the least table that reaches the key is the
only candidate. -/
theorem reaching_eq_some_iff
    {files : List SSTable} (leveled : Leveled files) {key : String}
    {table : SSTable} :
    reaching files key = some table ↔
      table ∈ files ∧ key ≤ table.largestKey ∧
        ∀ other ∈ files, key ≤ other.largestKey →
          table.largestKey ≤ other.largestKey := by
  refine ⟨reaching_spec leveled.largestSorted, ?_⟩
  rintro ⟨member, reaches, least⟩
  cases found : reaching files key with
  | none =>
      exact absurd (reaching_eq_none_iff.mp found table member) reaches.not_gt
  | some other =>
      obtain ⟨otherMember, otherReaches, otherLeast⟩ :=
        reaching_spec leveled.largestSorted found
      have sameLargest : table.largestKey = other.largestKey :=
        le_antisymm (least other otherMember otherReaches)
          (otherLeast table member reaches)
      have different : (files.map (·.largestKey)).Nodup := by
        rw [List.Nodup, List.pairwise_map]
        exact leveled.largest_lt.imp fun less => less.ne
      rw [List.inj_on_of_nodup_map different member otherMember sameLargest]

/-- Loading a level without overlaps gives the same searches. -/
theorem getFromLevel_loaded
    {files : List SSTable} (leveled : Leveled files)
    {loaded : List SSTable} (sorted : LargestSorted loaded)
    (same : ∀ table, table ∈ loaded ↔ table ∈ files)
    (level : Nat) (key : String) :
    getFromLevel (level + 1) loaded key =
      getFromLevel (level + 1) files key := by
  rw [getFromLevel_succ_eq sorted,
    getFromLevel_succ_eq leveled.largestSorted]
  change (reaching loaded key).bind _ = (reaching files key).bind _
  cases found : reaching loaded key with
  | none =>
      have nothing : reaching files key = none := by
        rw [reaching_eq_none_iff] at found ⊢
        simpa only [same] using found
      rw [nothing]
  | some table =>
      have spec := reaching_spec sorted found
      simp only [same] at spec
      rw [(reaching_eq_some_iff leveled).mpr spec]

end F4kvsLsm
