import F4kvsLsm.Compaction.CheckedMerge
import F4kvsLsm.Compaction.Correct
import F4kvsLsm.Compaction.Partition
import F4kvsLsm.Compaction.Selection
import F4kvsLsm.Lib.Runs
import Mathlib.Algebra.Order.BigOperators.Group.Finset

/-!
# When compactions settle

A compaction leaves its outputs on the level that they came from, where they
count again for the next decision, and one that cannot read its tables leaves
these as they are.  Without writes the compactions come to rest exactly when,
from some point on, each of them drops an entry or saves a table.
-/

namespace F4kvsLsm

open Transitions

/-! ## Runs of the background task -/

/-- No level calls for a compaction, in whatever order its groups are
visited. -/
def Settled (config : CompactionConfig) (levels : Nat → List SSTable) :
    Prop :=
  ∀ level < config.levelCount, ∀ order,
    (config.strategy.groupingAt level).Visits order (levels level) →
      shouldCompactLevel config order level (levels level) = false

/-- What a call of `compact_if_needed` leaves; an error is only logged. -/
def levelsAfterCall (path : SSTable → String) (config : CompactionConfig)
    (order : List Nat) (output : OutputFiles)
    (levels : Nat → List SSTable) : Nat → List SSTable :=
  match compactIfNeededChecked path config order output levels with
  | .ok compacted => compacted
  | .error _ => levels

/-- Calls of `compact_if_needed` one after the other, with no writes in
between.  Each visits the groups in an order of its own and writes tables of
its own. -/
structure QuietRun (config : CompactionConfig) where
  path : SSTable → String
  levels : Nat → Nat → List SSTable
  order : Nat → List Nat
  output : Nat → OutputFiles
  visits : ∀ n level,
    (config.strategy.groupingAt level).Visits (order n) (levels n level)
  next : ∀ n, levels (n + 1) =
    levelsAfterCall path config (order n) (output n) (levels n)

/-- Some entry is a tombstone, or not the only version of its key. -/
def HoldsStale (entries : List SSTableEntry) : Prop :=
  ¬ ((∀ entry ∈ entries, entry.deleted = false) ∧
    (entries.map (·.key)).Nodup)

/-- The group can be read, and its merge drops an entry or has its entries in
fewer tables of the target size. -/
def Shrinks (config : CompactionConfig) (group : List SSTable) : Prop :=
  (∀ table ∈ group, table.ReadsBack) ∧
    (HoldsStale (allEntries group) ∨
      ∃ runs, Division (estimatedSstableBytes config.jsonLen)
        (max config.targetSize 1) (mergeSstablesSafe group) runs ∧
          runs.length < group.length)

/-- The compaction that the call makes, if any, makes its group smaller. -/
def QuietRun.ShrinksAt {config : CompactionConfig} (run : QuietRun config)
    (n : Nat) : Prop :=
  ∀ level, levelToCompact config (run.order n) (run.levels n) = some level →
    Shrinks config
      (compactedGroup config (run.order n) (run.levels n) level)

/-! ## What a compaction leaves -/

theorem dedupLoop_eq_self
    {seenKeys : List String} {entries : List SSTableEntry}
    (live : ∀ entry ∈ entries, entry.deleted = false)
    (keys : (entries.map (·.key)).Nodup)
    (unseen : ∀ entry ∈ entries, entry.key ∉ seenKeys) :
    dedupLoop seenKeys entries = entries := by
  induction entries generalizing seenKeys with
  | nil => rfl
  | cons entry rest inductionHypothesis =>
      rw [List.map_cons, List.nodup_cons] at keys
      rw [List.forall_mem_cons] at live unseen
      rw [dedupLoop, if_neg unseen.1, live.1, if_neg Bool.false_ne_true,
        inductionHypothesis live.2 keys.2]
      intro other member
      rw [List.mem_cons, not_or]
      refine ⟨fun same => keys.1 ?_, unseen.2 other member⟩
      rw [← same]
      exact List.mem_map_of_mem member

theorem sortEntries_eq_self
    {entries : List SSTableEntry} (sorted : entries.Pairwise EntryOrder) :
    sortEntries entries = entries :=
  List.Pairwise.insertionSort_eq sorted

theorem sortEntries_perm (entries : List SSTableEntry) :
    (sortEntries entries).Perm entries :=
  List.perm_insertionSort EntryOrder entries

theorem deduplicateEntries_eq
    (group : List SSTable) :
    deduplicateEntries (mergeSstablesSafe group) =
      dedupLoop [] (mergeSstablesSafe group) := by
  rw [deduplicateEntries, mergeSstablesSafe,
    sortEntries_eq_self (sortEntries_sorted _)]

theorem deduplicateEntries_length_le (group : List SSTable) :
    (deduplicateEntries (mergeSstablesSafe group)).length ≤
      (allEntries group).length := by
  rw [deduplicateEntries_eq,
    ← (sortEntries_perm (allEntries group)).length_eq]
  exact (dedupLoop_sublist [] _).length_le

theorem deduplicateEntries_of_fresh
    {group : List SSTable} (fresh : ¬ HoldsStale (allEntries group)) :
    deduplicateEntries (mergeSstablesSafe group) =
      mergeSstablesSafe group := by
  obtain ⟨live, keys⟩ := not_not.mp fresh
  have perm := sortEntries_perm (allEntries group)
  rw [deduplicateEntries_eq]
  refine dedupLoop_eq_self ?_ ?_ fun _ _ => List.not_mem_nil
  · exact fun entry member => live entry (perm.mem_iff.mp member)
  · exact (perm.map _).nodup_iff.mpr keys

theorem deduplicateEntries_length_lt
    {group : List SSTable} (stale : HoldsStale (allEntries group)) :
    (deduplicateEntries (mergeSstablesSafe group)).length <
      (allEntries group).length := by
  refine Nat.lt_of_le_of_ne (deduplicateEntries_length_le group)
    fun same => stale ?_
  have perm := sortEntries_perm (allEntries group)
  have kept := dedupLoop_sublist [] (mergeSstablesSafe group)
  rw [deduplicateEntries_eq, ← perm.length_eq] at same
  have everything := kept.eq_of_length same
  constructor
  · intro entry member
    have inMerged : entry ∈ mergeSstablesSafe group :=
      perm.mem_iff.mpr member
    rw [← everything] at inMerged
    exact (mem_dedupLoop.mp inMerged).2.1
  · have increasing :=
      dedupLoop_sorted [] (sortEntries_sorted (allEntries group))
    rw [← mergeSstablesSafe, everything] at increasing
    refine (perm.map _).nodup_iff.mp ?_
    exact List.pairwise_map.mpr (increasing.imp fun less => less.ne)

/-! ## The weight of the levels -/

theorem allEntries_length (files : List SSTable) :
    (allEntries files).length =
      (files.map fun table => table.entries.length).sum :=
  List.length_flatMap

theorem remainingTables_length_add
    {files group : List SSTable} (part : group.Sublist files)
    (weight : SSTable → Nat) :
    ((remainingTables files group).map weight).sum +
        (group.map weight).sum ≤ (files.map weight).sum := by
  let merged := fun table : SSTable =>
    group.any fun compacted => compacted.name = table.name
  have split := List.filter_append_perm merged files
  have inside : (group.map weight).sum ≤
      ((files.filter merged).map weight).sum := by
    refine List.Sublist.sum_le_sum (List.Sublist.map weight ?_)
      fun _ _ => Nat.zero_le _
    have own : group.filter merged = group :=
      List.filter_eq_self.mpr fun table member =>
        List.any_eq_true.mpr ⟨table, member, decide_eq_true rfl⟩
    rw [← own]
    exact part.filter merged
  have whole := (split.map weight).sum_eq
  rw [List.map_append, List.sum_append] at whole
  rw [remainingTables]
  change ((files.filter fun table => !merged table).map weight).sum + _ ≤ _
  omega

/-- A compaction that shrinks its group leaves fewer entries, or as many and
fewer tables. -/
theorem compactLevel_lighter
    {config : CompactionConfig} {order : List Nat} {output : OutputFiles}
    {levels : Nat → List SSTable} {level : Nat}
    (shrinks : Shrinks config (compactedGroup config order levels level)) :
    let files := compactLevel config order output level (levels level)
    (allEntries files).length < (allEntries (levels level)).length ∨
      (allEntries files).length ≤ (allEntries (levels level)).length ∧
        files.length < (levels level).length := by
  intro files
  have part : (compactedGroup config order levels level).Sublist
      (levels level) := selected_sublist config order level (levels level)
  have counted : files = _ :=
    compactLevel_eq config order output levels level
  generalize compactedGroup config order levels level = group at *
  have entries := remainingTables_length_add part
    fun table => table.entries.length
  have tables := remainingTables_length_add part fun _ => 1
  simp only [← allEntries_length] at entries
  simp only [List.map_const', List.sum_replicate_nat, Nat.mul_one]
    at tables
  have kept := deduplicateEntries_length_le group
  rw [counted, allEntries_append, List.length_append, List.length_append,
    mergedTables, allEntries_createNewSstables]
  by_cases stale : HoldsStale (allEntries group)
  · have fewer := deduplicateEntries_length_lt stale
    left
    omega
  · obtain ⟨runs, division, fewer⟩ := shrinks.2.resolve_left stale
    have cut := (cutEntries_length_lt_iff
      (estimatedSstableBytes config.jsonLen) (max config.targetSize 1)
      group.length (mergeSstablesSafe group)).mpr ⟨runs, division, fewer⟩
    rw [← deduplicateEntries_of_fresh stale,
      ← @createNewSstables_entries config output level,
      List.length_map] at cut
    right
    omega

/-- A weight added up over the levels that are looked at. -/
def levelTotal (config : CompactionConfig) (weight : List SSTable → Nat)
    (levels : Nat → List SSTable) : Nat :=
  (Finset.range config.levelCount).sum fun level => weight (levels level)

theorem levelTotal_update
    {config : CompactionConfig} (weight : List SSTable → Nat)
    (levels : Nat → List SSTable) {level : Nat} (files : List SSTable)
    (inRange : level < config.levelCount) :
    levelTotal config weight (Function.update levels level files) +
        weight (levels level) =
      levelTotal config weight levels + weight files := by
  have member := Finset.mem_range.mpr inRange
  have others : ∀ other ∈ (Finset.range config.levelCount).erase level,
      weight (Function.update levels level files other) =
        weight (levels other) := by
    intro other different
    rw [Function.update_of_ne (Finset.ne_of_mem_erase different)]
  have before := Finset.add_sum_erase _
    (fun other => weight (levels other)) member
  have after := Finset.add_sum_erase _
    (fun other => weight (Function.update levels level files other)) member
  rw [Finset.sum_congr rfl others] at after
  rw [Function.update_self] at after
  rw [levelTotal, levelTotal, ← before, ← after]
  omega

/-- Fewer entries, or as many and fewer tables. -/
def Lighter (first second : Nat × Nat) : Prop :=
  first.1 < second.1 ∨ first.1 ≤ second.1 ∧ first.2 < second.2

theorem lighter_wellFounded : WellFounded Lighter := by
  refine Subrelation.wf (fun {first second} lighter => ?_)
    (Prod.lex Nat.lt_wfRel Nat.lt_wfRel).wf
  have step : first.1 < second.1 ∨
      first.1 = second.1 ∧ first.2 < second.2 := by
    rcases lighter with fewer | ⟨asMany, fewer⟩
    · exact Or.inl fewer
    · rcases Nat.lt_or_eq_of_le asMany with less | same
      · exact Or.inl less
      · exact Or.inr ⟨same, fewer⟩
  exact Prod.lex_def.mpr step

/-- The entries and the tables of the levels that are looked at. -/
def weightOf (config : CompactionConfig) (levels : Nat → List SSTable) :
    Nat × Nat :=
  (levelTotal config (fun files => (allEntries files).length) levels,
    levelTotal config List.length levels)

/-! ## Settling -/

section

variable {config : CompactionConfig} {order : List Nat}
  {output : OutputFiles} {levels : Nat → List SSTable}

/-- The decisions of one call do not depend on the order in which it visits
the groups. -/
theorem settled_iff
    (visits : ∀ level,
      (config.strategy.groupingAt level).Visits order (levels level)) :
    Settled config levels ↔ levelToCompact config order levels = none := by
  rw [levelToCompact, List.find?_eq_none]
  constructor
  · intro settled level inRange
    rw [settled level (List.mem_range.mp inRange) order (visits level)]
    exact Bool.false_ne_true
  · intro none level inRange order' visits'
    rw [Bool.eq_false_iff, Ne,
      shouldCompactLevel_iff config level visits',
      ← shouldCompactLevel_iff config level (visits level)]
    exact none level (List.mem_range.mpr inRange)

namespace QuietRun

variable (run : QuietRun config)

theorem settled_iff_at (n : Nat) :
    Settled config (run.levels n) ↔
      levelToCompact config (run.order n) (run.levels n) = none :=
  settled_iff (run.visits n)

theorem settled_next
    {n : Nat} (settled : Settled config (run.levels n)) :
    Settled config (run.levels (n + 1)) := by
  have none := (run.settled_iff_at n).mp settled
  rw [run.next, levelsAfterCall, compactIfNeededChecked, none]
  exact settled

/-- A compaction whose group can be read is carried out. -/
theorem next_of_shrinks {n : Nat} (shrinks : run.ShrinksAt n) :
    run.levels (n + 1) = compactIfNeeded config (run.order n) (run.output n)
      (run.levels n) := by
  rw [run.next, levelsAfterCall,
    compactIfNeededChecked_eq fun level chosen => (shrinks level chosen).1]

theorem lighter_next
    {n : Nat} (shrinks : run.ShrinksAt n)
    (unsettled : ¬ Settled config (run.levels n)) :
    Lighter (weightOf config (run.levels (n + 1)))
      (weightOf config (run.levels n)) := by
  rw [run.settled_iff_at, ← Ne, Option.ne_none_iff_exists'] at unsettled
  obtain ⟨level, chosen⟩ := unsettled
  have inRange := (levelToCompact_spec chosen).1
  have lighter :=
    @compactLevel_lighter _ _ (run.output n) _ _ (shrinks level chosen)
  rw [run.next_of_shrinks shrinks, compactIfNeeded_of_some chosen, Lighter,
    weightOf, weightOf]
  generalize compactLevel config (run.order n) (run.output n) level
    (run.levels n level) = files at *
  have entries := levelTotal_update
    (fun files => (allEntries files).length) (run.levels n) files inRange
  have tables :=
    levelTotal_update List.length (run.levels n) files inRange
  dsimp only at lighter entries ⊢
  omega

/-- Compactions settle exactly when from some call on each that is made drops
an entry or saves a table. -/
theorem settles_iff_shrinks
    {config : CompactionConfig} (run : QuietRun config) :
    (∃ n, Settled config (run.levels n)) ↔
      ∃ first, ∀ n, first ≤ n → run.ShrinksAt n := by
  constructor
  · rintro ⟨first, settled⟩
    refine ⟨first, fun n later level chosen => ?_⟩
    have still : Settled config (run.levels n) :=
      @rest_of_le _ run.levels (Settled config)
        (fun _ => run.settled_next) _ _ settled later
    rw [run.settled_iff_at, chosen] at still
    cases still
  · rintro ⟨first, shrinks⟩
    exact exists_rest_of_decreases lighter_wellFounded (weightOf config)
      fun n later unsettled => run.lighter_next (shrinks n later) unsettled

end QuietRun

end

/-! ## A level that is rewritten forever -/

/-- Two entries of this value do not fit into a table of the target size. -/
def wide : Value := .bytes (List.replicate 600 0)

def wideEntries : List SSTableEntry :=
  [⟨"a", wide, 1, false⟩, ⟨"b", wide, 2, false⟩, ⟨"c", wide, 3, false⟩,
    ⟨"d", wide, 4, false⟩]

def smallTarget (strategy : CompactionStrategy) : CompactionConfig where
  strategy := strategy
  levelCount := 7
  maxSstablesPerLevel := 2
  levelThreshold := fun level => 1024 * 10 ^ level
  targetSize := 1024
  jsonLen := fun _ => 0

/-- The files of a call that is made in the given minute. -/
def writtenInMinute (minute : Nat) : OutputFiles where
  timestamp := fun _ => minute * 60
  uniq := fun index => minute * 60000000000 + index
  info := fun _ => ⟨300, minute * 60, by decide⟩

def wideTables (strategy : CompactionStrategy) (minute : Nat) :
    List SSTable :=
  createNewSstables (smallTarget strategy) (writtenInMinute minute) 0
    wideEntries

/-- Of entries that take more than half of the target size, each gets a table
of its own. -/
theorem cutEntries_length_of_large
    {size : SSTableEntry → Nat} {targetSize : Nat}
    {entries : List SSTableEntry}
    (large : ∀ entry ∈ entries, targetSize < 2 * size entry) :
    (cutEntries size targetSize [] 0 entries).length = entries.length := by
  have after : ∀ (rest : List SSTableEntry) (first : SSTableEntry),
      (∀ entry ∈ first :: rest, targetSize < 2 * size entry) →
        (cutEntries size targetSize [first] (size first) rest).length =
          rest.length + 1 := by
    intro rest
    induction rest with
    | nil => exact fun _ _ => rfl
    | cons entry rest inductionHypothesis =>
        intro first large
        rw [List.forall_mem_cons] at large
        have both := (List.forall_mem_cons.mp large.2).1
        have firstLarge := large.1
        rw [cutEntries, if_pos ⟨by omega, List.cons_ne_nil _ _⟩,
          List.length_cons, inductionHypothesis entry large.2]
        rfl
  cases entries with
  | nil => rfl
  | cons first rest =>
      rw [cutEntries, if_neg fun full => full.2 rfl, Nat.zero_add]
      exact after rest first large

section

variable {strategy : CompactionStrategy} {minute : Nat}

theorem wide_size (jsonLen : SerdeJsonValue → Nat) :
    wide.serializedSize jsonLen = 600 :=
  List.length_replicate

theorem wideEntries_large {entry : SSTableEntry}
    (member : entry ∈ wideEntries) :
    1024 < 2 * estimatedSstableBytes (smallTarget strategy).jsonLen entry := by
  have value : entry.value = wide := by
    simp only [wideEntries, List.mem_cons, List.not_mem_nil, or_false]
      at member
    rcases member with rfl | rfl | rfl | rfl <;> rfl
  rw [estimatedSstableBytes, value, wide_size]
  omega

theorem wideTables_length : (wideTables strategy minute).length = 4 := by
  have cut := congrArg List.length (@createNewSstables_entries
    (smallTarget strategy) (writtenInMinute minute) 0 wideEntries)
  rw [List.length_map] at cut
  rw [wideTables, cut]
  exact cutEntries_length_of_large fun _ => wideEntries_large

theorem mem_wideTables
    {table : SSTable} (member : table ∈ wideTables strategy minute) :
    table.fileSize = 300 ∧ table.createdAt = minute * 60 := by
  rw [wideTables, createNewSstables, List.mem_mapIdx] at member
  obtain ⟨index, bound, rfl⟩ := member
  exact ⟨rfl, rfl⟩

theorem largestGroup_eq_self
    {bucket : SSTable → Nat} {order : List Nat} {files : List SSTable}
    {key : Nat} (visited : key ∈ order)
    (same : ∀ table ∈ files, bucket table = key) :
    largestGroup bucket order files = files := by
  refine (largestGroup_sublist bucket order files).eq_of_length_le ?_
  have all : (files.filter fun table => bucket table = key) = files :=
    List.filter_eq_self.mpr fun table member =>
      decide_eq_true (same table member)
  refine (le_length_foldl_iff []).mpr (Or.inr ⟨key, visited, ?_⟩)
  rw [all]

theorem mergedTables_wide (next : Nat) :
    mergedTables (smallTarget strategy) (writtenInMinute next) 0
        (wideTables strategy minute) = wideTables strategy next := by
  have entries : allEntries (wideTables strategy minute) = wideEntries :=
    allEntries_createNewSstables wideEntries
  have fresh : ¬ HoldsStale (allEntries (wideTables strategy minute)) := by
    rw [entries]
    exact not_not.mpr ⟨by decide, by decide⟩
  rw [mergedTables, deduplicateEntries_of_fresh fresh, mergeSstablesSafe,
    entries, sortEntries_eq_self (by decide)]
  rfl

/-- The levels in the given minute: four tables on level 0. -/
def wideLevels (strategy : CompactionStrategy) (minute : Nat) :
    Nat → List SSTable :=
  Function.update (fun _ => []) 0 (wideTables strategy minute)

/-- The buckets of all tables, by size and by time. -/
def wideOrder (minute : Nat) : List Nat :=
  [0, minute * 60 / 3600]

theorem wide_bucket
    {table : SSTable} (member : table ∈ wideTables strategy minute) :
    sizeBucket table = 0 := by
  rw [sizeBucket, (mem_wideTables member).1]

theorem wide_window
    {table : SSTable} (member : table ∈ wideTables strategy minute) :
    timeWindow table = minute * 60 / 3600 := by
  rw [timeWindow, (mem_wideTables member).2]

theorem wideLevels_zero :
    wideLevels strategy minute 0 = wideTables strategy minute :=
  Function.update_self ..

theorem wide_visits (grouping : Grouping) (level : Nat) :
    grouping.Visits (wideOrder minute)
      (wideLevels strategy minute level) := by
  have tables : ∀ table ∈ wideLevels strategy minute level,
      table ∈ wideTables strategy minute := by
    intro table member
    by_cases top : level = 0
    · rw [top, wideLevels_zero] at member
      exact member
    · rw [wideLevels, Function.update_of_ne top] at member
      exact absurd member List.not_mem_nil
  cases grouping with
  | wholeLevel => exact trivial
  | bySize =>
      intro table member
      rw [wide_bucket (tables table member)]
      exact List.mem_cons_self
  | byTime =>
      intro table member
      rw [wide_window (tables table member)]
      exact List.mem_cons_of_mem _ List.mem_cons_self

theorem wide_crowded
    {bucket : SSTable → Nat} {least key : Nat} (few : least ≤ 4)
    (same : ∀ table ∈ wideTables strategy minute, bucket table = key) :
    Crowded bucket least (wideTables strategy minute) := by
  refine ⟨key, ?_⟩
  rw [List.filter_eq_self.mpr fun table member =>
    decide_eq_true (same table member), wideTables_length]
  exact few

theorem wide_triggers (levelThreshold : Nat) (grouping : Grouping) :
    grouping.Triggers 2 levelThreshold 0 (wideTables strategy minute) := by
  cases grouping with
  | wholeLevel =>
      rw [Grouping.Triggers, if_pos rfl, wideTables_length]
      decide
  | bySize => exact wide_crowded (by decide) fun _ => wide_bucket
  | byTime => exact wide_crowded (by decide) fun _ => wide_window

theorem wide_chosen :
    levelToCompact (smallTarget strategy) (wideOrder minute)
      (wideLevels strategy minute) = some 0 := by
  have visits := @wide_visits strategy minute
    ((smallTarget strategy).strategy.groupingAt 0) 0
  rw [wideLevels_zero] at visits
  have triggered := (shouldCompactLevel_iff (smallTarget strategy) 0
    visits).mpr (wide_triggers _ _)
  rw [← wideLevels_zero] at triggered
  have levels : List.range (smallTarget strategy).levelCount =
      0 :: [1, 2, 3, 4, 5, 6] := rfl
  rw [levelToCompact, levels]
  exact List.find?_cons_of_pos triggered

theorem wide_group :
    compactedGroup (smallTarget strategy) (wideOrder minute)
      (wideLevels strategy minute) 0 = wideTables strategy minute := by
  have bySize : selectSizeTieredSstables (wideOrder minute)
      (wideTables strategy minute) = wideTables strategy minute := by
    rw [wideOrder, selectSizeTieredSstables, selectGroup,
      largestGroup_eq_self List.mem_cons_self fun _ => wide_bucket,
      wideTables_length, if_neg (by decide), if_pos (by decide)]
  have byTime : selectTimeWindowedSstables (wideOrder minute)
      (wideTables strategy minute) = wideTables strategy minute := by
    rw [wideOrder, selectTimeWindowedSstables, selectGroup,
      largestGroup_eq_self (List.mem_cons_of_mem _ List.mem_cons_self)
        fun _ => wide_window, wideTables_length, if_pos (by decide)]
  have configured : (smallTarget strategy).strategy = strategy := rfl
  rw [compactedGroup, wideLevels_zero, selectSstablesForCompaction, configured]
  cases strategy with
  | leveled => rfl
  | sizeTiered => exact bySize
  | timeWindowed => exact byTime
  | hybrid => exact if_pos rfl

theorem wideTables_readBack :
    ∀ table ∈ wideTables strategy minute, table.ReadsBack := by
  intro table member entry inTable
  have inEntries : entry ∈ allEntries (wideTables strategy minute) :=
    mem_allEntries.mpr ⟨table, member, inTable⟩
  rw [wideTables, allEntries_createNewSstables] at inEntries
  simp only [wideEntries, List.mem_cons, List.not_mem_nil, or_false]
    at inEntries
  rcases inEntries with rfl | rfl | rfl | rfl <;>
    exact ⟨rfl, by decide +kernel⟩

/-- Every minute the four tables are rewritten into four others. -/
def rewrittenForever (strategy : CompactionStrategy) :
    QuietRun (smallTarget strategy) where
  path := fun _ => ""
  levels := wideLevels strategy
  order := wideOrder
  output := fun minute => writtenInMinute (minute + 1)
  visits := fun _ level => wide_visits _ level
  next := fun minute => by
    have readsBack : ∀ level, levelToCompact (smallTarget strategy)
        (wideOrder minute) (wideLevels strategy minute) = some level →
          ∀ table ∈ compactedGroup (smallTarget strategy) (wideOrder minute)
            (wideLevels strategy minute) level, table.ReadsBack := by
      intro level chosen
      obtain rfl := Option.some.inj (wide_chosen.symm.trans chosen)
      rw [wide_group]
      exact wideTables_readBack
    rw [levelsAfterCall, compactIfNeededChecked_eq readsBack,
      compactIfNeeded_of_some wide_chosen, compactLevel_eq, wide_group,
      mergedTables_wide, wideLevels_zero, remainingTables_self,
      List.nil_append, wideLevels, wideLevels, Function.update_idem]

/-- Whatever the strategy, the compactions of the four tables never
settle. -/
theorem compactions_never_settle :
    ¬ ∃ strategy n, Settled (smallTarget strategy)
      ((rewrittenForever strategy).levels n) := by
  rintro ⟨strategy, n, settled⟩
  rw [(rewrittenForever strategy).settled_iff_at] at settled
  exact absurd (wide_chosen.symm.trans settled) (Option.some_ne_none 0)

end

end F4kvsLsm
