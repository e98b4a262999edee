import F4kvsLsm.Compaction.Reads

/-!
# Which tables a compaction takes

A strategy looks at a level as a whole, or at groups of tables of one size or
of one hour.  The decision and the selection each visit the groups in an
order of their own; whether a group is large enough does not depend on it.
-/

namespace F4kvsLsm

/-- Some bucket holds at least so many tables. -/
def Crowded (bucket : SSTable → Nat) (least : Nat) (files : List SSTable) :
    Prop :=
  ∃ key, least ≤ (files.filter fun table => bucket table = key).length

/-- How the tables of a level are grouped. -/
inductive Grouping where
  | wholeLevel
  | bySize
  | byTime
  deriving DecidableEq

/-- `Hybrid` uses leveled for level 0 and size-tiered for others. -/
def CompactionStrategy.groupingAt (level : Nat) :
    CompactionStrategy → Grouping
  | .leveled => .wholeLevel
  | .sizeTiered => .bySize
  | .timeWindowed => .byTime
  | .hybrid => if level = 0 then .wholeLevel else .bySize

namespace Grouping

/-- The keys that are visited are those of the tables. -/
def Visits (order : List Nat) (files : List SSTable) : Grouping → Prop
  | wholeLevel => True
  | bySize => ∀ table ∈ files, sizeBucket table ∈ order
  | byTime => ∀ table ∈ files, timeWindow table ∈ order

/-- There is a group to merge. -/
def Selects (files : List SSTable) : Grouping → Prop
  | wholeLevel => files ≠ []
  | bySize => Crowded sizeBucket 4 files
  | byTime => Crowded timeWindow 2 files

/-- There are too many tables on level 0, too many bytes on another level, or
too many tables in one group. -/
def Triggers (maxSstables levelThreshold level : Nat)
    (files : List SSTable) : Grouping → Prop
  | wholeLevel =>
      if level = 0 then maxSstables < files.length
      else levelThreshold < (files.map (·.fileSize)).sum
  | bySize => Crowded sizeBucket 4 files
  | byTime => Crowded timeWindow 2 files

theorem selects_of_triggers
    {maxSstables levelThreshold level : Nat} {files : List SSTable}
    (grouping : Grouping)
    (triggered :
      grouping.Triggers maxSstables levelThreshold level files) :
    grouping.Selects files := by
  cases grouping with
  | wholeLevel =>
      rintro rfl
      rw [Triggers] at triggered
      split at triggered
      · exact Nat.not_lt_zero _ triggered
      · exact Nat.not_lt_zero _ triggered
  | bySize => exact triggered
  | byTime => exact triggered

end Grouping

section

variable {bucket : SSTable → Nat} {least : Nat} {order : List Nat}
  {files : List SSTable}

theorem Crowded.length_le (crowded : Crowded bucket least files) :
    least ≤ files.length := by
  obtain ⟨key, enough⟩ := crowded
  exact Nat.le_trans enough (List.length_filter_le _ files)

/-- The group that is kept is as large as any that was visited. -/
theorem le_length_foldl_iff (best : List SSTable) :
    least ≤ (order.foldl
        (fun best key =>
          let group := files.filter (fun table => bucket table = key)
          if best.length ≤ group.length then group else best) best).length ↔
      least ≤ best.length ∨ ∃ key ∈ order,
        least ≤ (files.filter fun table => bucket table = key).length := by
  induction order generalizing best with
  | nil => simp
  | cons key order inductionHypothesis =>
      rw [List.foldl_cons, inductionHypothesis]
      dsimp only
      split
      · case isTrue larger =>
          simp only [List.mem_cons, exists_eq_or_imp]
          grind
      · case isFalse smaller =>
          simp only [List.mem_cons, exists_eq_or_imp]
          grind

theorem le_length_largestGroup_iff
    (positive : 0 < least) (visits : ∀ table ∈ files, bucket table ∈ order) :
    least ≤ (largestGroup bucket order files).length ↔
      Crowded bucket least files := by
  rw [largestGroup, le_length_foldl_iff, List.length_nil, Crowded]
  constructor
  · rintro (none | ⟨key, -, enough⟩)
    · exact absurd none (Nat.not_le_of_gt positive)
    · exact ⟨key, enough⟩
  · rintro ⟨key, enough⟩
    obtain ⟨table, member⟩ := List.exists_mem_of_length_pos
      (Nat.lt_of_lt_of_le positive enough)
    rw [List.mem_filter, decide_eq_true_eq] at member
    exact Or.inr ⟨key, member.2 ▸ visits table member.1, enough⟩

theorem selectGroup_ne_nil_iff
    (positive : 0 < least) (visits : ∀ table ∈ files, bucket table ∈ order) :
    selectGroup bucket least order files ≠ [] ↔
      Crowded bucket least files := by
  rw [← le_length_largestGroup_iff positive visits, selectGroup]
  split
  · case isTrue enough =>
      refine iff_of_true (fun nothing => ?_) enough
      rw [nothing] at enough
      exact absurd enough (Nat.not_le_of_gt positive)
  · case isFalse few => exact iff_of_false (fun some => some rfl) few

theorem shouldCompactSizeTiered_iff
    (visits : ∀ table ∈ files, sizeBucket table ∈ order) :
    shouldCompactSizeTiered order files = true ↔
      Crowded sizeBucket 4 files := by
  rw [shouldCompactSizeTiered]
  split
  · case isTrue few =>
      exact iff_of_false Bool.false_ne_true
        fun crowded => absurd crowded.length_le (Nat.not_le_of_gt few)
  · rw [decide_eq_true_eq, ge_iff_le,
      le_length_largestGroup_iff (by decide) visits]

theorem selectSizeTiered_ne_nil_iff
    (visits : ∀ table ∈ files, sizeBucket table ∈ order) :
    selectSizeTieredSstables order files ≠ [] ↔
      Crowded sizeBucket 4 files := by
  rw [selectSizeTieredSstables]
  split
  · case isTrue few =>
      exact iff_of_false (fun some => some rfl)
        fun crowded => absurd crowded.length_le (Nat.not_le_of_gt few)
  · exact selectGroup_ne_nil_iff (by decide) visits

theorem shouldCompactTimeWindowed_iff :
    shouldCompactTimeWindowed files = true ↔
      Crowded timeWindow 2 files := by
  rw [shouldCompactTimeWindowed]
  split
  · case isTrue few =>
      exact iff_of_false Bool.false_ne_true
        fun crowded => absurd crowded.length_le (Nat.not_le_of_gt few)
  · simp only [List.any_eq_true, decide_eq_true_eq]
    constructor
    · rintro ⟨table, -, several⟩
      exact ⟨timeWindow table, several⟩
    · rintro ⟨key, several⟩
      obtain ⟨table, member⟩ := List.exists_mem_of_length_pos
        (Nat.lt_of_lt_of_le Nat.zero_lt_two several)
      rw [List.mem_filter, decide_eq_true_eq] at member
      refine ⟨table, member.1, ?_⟩
      rw [member.2]
      exact several

theorem selected_ne_nil_iff
    (config : CompactionConfig) (level : Nat)
    (visits : (config.strategy.groupingAt level).Visits order files) :
    selectSstablesForCompaction config order level files ≠ [] ↔
      (config.strategy.groupingAt level).Selects files := by
  rw [selectSstablesForCompaction]
  cases strategy : config.strategy with
  | leveled => exact Iff.rfl
  | sizeTiered =>
      rw [strategy] at visits
      exact selectSizeTiered_ne_nil_iff visits
  | timeWindowed =>
      rw [strategy] at visits
      exact selectGroup_ne_nil_iff (by decide) visits
  | hybrid =>
      rw [strategy, CompactionStrategy.groupingAt] at visits
      rw [CompactionStrategy.groupingAt]
      by_cases top : level = 0
      · simp only [if_pos top]
        exact Iff.rfl
      · rw [if_neg top] at visits
        simp only [if_neg top]
        exact selectSizeTiered_ne_nil_iff visits

theorem Grouping.Selects.ne_nil
    {grouping : Grouping} (selects : grouping.Selects files) :
    files ≠ [] := by
  cases grouping with
  | wholeLevel => exact selects
  | bySize =>
      rintro rfl
      exact absurd selects.length_le (by decide)
  | byTime =>
      rintro rfl
      exact absurd selects.length_le (by decide)

theorem shouldCompactLeveled_iff (config : CompactionConfig) (level : Nat) :
    shouldCompactLeveled config level files = true ↔
      Grouping.wholeLevel.Triggers config.maxSstablesPerLevel
        (config.levelThreshold level) level files := by
  rw [shouldCompactLeveled, Grouping.Triggers]
  split
  · exact decide_eq_true_iff
  · exact decide_eq_true_iff

theorem shouldCompactLevel_iff
    (config : CompactionConfig) (level : Nat)
    (visits : (config.strategy.groupingAt level).Visits order files) :
    shouldCompactLevel config order level files = true ↔
      (config.strategy.groupingAt level).Triggers config.maxSstablesPerLevel
        (config.levelThreshold level) level files := by
  rw [shouldCompactLevel]
  split
  · case isTrue nothing =>
      refine iff_of_false Bool.false_ne_true fun triggered => ?_
      exact (Grouping.selects_of_triggers _ triggered).ne_nil
        (List.isEmpty_iff.mp nothing)
  · cases strategy : config.strategy with
    | leveled => exact shouldCompactLeveled_iff config level
    | sizeTiered =>
        rw [strategy] at visits
        exact shouldCompactSizeTiered_iff visits
    | timeWindowed => exact shouldCompactTimeWindowed_iff
    | hybrid =>
        rw [strategy, CompactionStrategy.groupingAt] at visits
        rw [CompactionStrategy.groupingAt]
        by_cases top : level = 0
        · simp only [if_pos top]
          exact shouldCompactLeveled_iff config level
        · rw [if_neg top] at visits
          simp only [if_neg top]
          exact shouldCompactSizeTiered_iff visits

end

end F4kvsLsm
