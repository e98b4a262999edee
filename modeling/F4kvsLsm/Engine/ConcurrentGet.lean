import F4kvsLsm.Lib.Runs
import F4kvsLsm.Compaction.Crash
import F4kvsLsm.Core.LevelSearch

/-!
# A read beside a compaction

A read asks the memtables and then the levels in order.  In each level it
collects the indices of the tables that may hold the key, under one lock, and
pins the table at each index under a lock of its own.  The install of a
compaction can fall between any two of these steps.
-/

namespace F4kvsLsm

open Transitions Versions BinarySearch

/-! ## The read -/

/-- `find_sstable_for_key` -/
def findSstableIndex (files : List SSTable) (key : String) : Option Nat :=
  let index := partitionPoint (fun table => table.largestKey < key) files
  match files[index]? with
  | some table =>
      if table.smallestKey ≤ key ∧ key ≤ table.largestKey then some index
      else none
  | none => none

/-- The indices of the tables of a level that may hold the key. -/
def candidateIndices (level : Nat) (files : List SSTable) (key : String) :
    List Nat :=
  match level with
  | 0 => (List.range files.length).filter fun index =>
      (files[index]?).any (·.keyMayExist key)
  | _ + 1 => ((findSstableIndex files key).filter fun index =>
      (files[index]?).any (·.keyMayExist key)).toList

/-- How far a read has come.  `seen` is what the level held when its
candidates were collected; the read itself remembers the indices only. -/
inductive GetCall where
  | memtables
  | collecting (level : Nat)
  | pinning (level : Nat) (seen : List SSTable) (best : Option SSTableEntry)
      (indices : List Nat)
  | returned (value : Option Value)

/-- What a lookup in a pinned table means for the read.  In level 0 the
highest timestamp wins, in the other levels the first hit is definitive. -/
def afterLookup (level : Nat) (seen : List SSTable)
    (best : Option SSTableEntry) (indices : List Nat)
    (hit : Option SSTableEntry) : GetCall :=
  match hit with
  | none => .pinning level seen best indices
  | some entry =>
      if level = 0 then
        .pinning level seen (keepNewer SSTableEntry.timestamp best entry)
          indices
      else .returned entry.visible

/-- One step of `get` and `get_from_sstables`. -/
def getStep (levelCount : Nat) (tree : LsmTree) (key : String) :
    GetCall → GetCall
  | .memtables =>
      match getFromMemtables (tree.active :: tree.immutables) key with
      | .found value => .returned (some value)
      | .tombstone => .returned none
      | .missing => .collecting 0
  | .collecting level =>
      if level < levelCount then
        .pinning level (tree.levels level) none
          (candidateIndices level (tree.levels level) key)
      else .returned none
  | .pinning level seen best (index :: indices) =>
      afterLookup level seen best indices
        ((tree.levels level)[index]?.bind (·.lookupLogged .records key))
  | .pinning level _ best [] =>
      match best with
      | some entry => .returned entry.visible
      | none => .collecting (level + 1)
  | .returned value => .returned value

/-! ## The compaction -/

/-- A compaction of either kind, with what its surroundings decide. -/
inductive CompactionRun where
  | ifNeeded (order : List Nat) (output : OutputFiles)
  | all (output : OutputFiles)

def CompactionRun.Installs (config : CompactionConfig) (tree : LsmTree)
    (levels : Nat → List SSTable) : CompactionRun → Prop
  | .ifNeeded order output =>
      levels = compactIfNeeded config order output tree.levels
  | .all output => compactAll config output tree.levels = .ok levels

/-- A compaction that by itself leaves every read as it is. -/
def CompactionRun.KeepsReads (config : CompactionConfig) (tree : LsmTree) :
    CompactionRun → Prop
  | .ifNeeded order output =>
      FreshNames config order output tree ∧ MergesEnd config order tree ∧
        KeepsDeletions config order tree
  | .all output => FreshOutputs config output tree.levels

/-- The engine while one read runs. -/
structure GetState where
  tree : LsmTree
  call : GetCall
  installed : Bool

inductive GetAction where
  | read
  | install (compaction : CompactionRun)

/-- The read goes on, or the compaction installs its result. -/
inductive GetStep (config : CompactionConfig) (key : String) :
    GetState → GetAction → GetState → Prop
  | read {state : GetState} :
      GetStep config key state .read
        { state with
          call := getStep config.levelCount state.tree key state.call }
  | install {state : GetState} {compaction : CompactionRun}
      {levels : Nat → List SSTable} :
      state.installed = false →
      compaction.Installs config state.tree levels →
      GetStep config key state (.install compaction)
        { state with
          tree := { state.tree with levels := levels }
          installed := true }

/-- At every pin the index still holds the table that was collected, and the
compaction by itself changes no read. -/
def PinsCollected (config : CompactionConfig) (state : GetState) :
    GetAction → Prop
  | .read =>
      ∀ level seen best index indices,
        state.call = .pinning level seen best (index :: indices) →
          (state.tree.levels level)[index]? = seen[index]?
  | .install compaction => compaction.KeepsReads config state.tree

/-! ## One level -/

/-- What the remaining pins of a level make of the hit so far, when they meet
the collected tables. -/
def pinAll (level : Nat) (seen : List SSTable) (key : String)
    (best : Option SSTableEntry) (indices : List Nat) :
    Option SSTableEntry :=
  let hits := indices.filterMap fun index => seen[index]?.bind (·.lookup key)
  match level with
  | 0 => hits.foldl (keepNewer SSTableEntry.timestamp) best
  | _ + 1 => hits.head?

theorem filterMap_range_getElem?
    {α β : Type*} (f : α → Option β) (items : List α) :
    (List.range items.length).filterMap (fun index => items[index]?.bind f) =
      items.filterMap f := by
  induction items using List.reverseRecOn with
  | nil => rfl
  | append_singleton items last inductionHypothesis =>
      rw [List.length_append, List.length_singleton, List.range_succ,
        List.filterMap_append, List.filterMap_append, ← inductionHypothesis]
      congr 1
      · refine List.filterMap_congr fun index member => ?_
        rw [List.getElem?_append_left (List.mem_range.mp member)]
      · rw [List.filterMap_cons, List.getElem?_concat_length]
        rfl

theorem bind_lookup_of_filter (files : List SSTable) (key : String)
    (index : Nat) :
    (if (files[index]?).any (·.keyMayExist key) = true then
        files[index]?.bind (·.lookup key) else none) =
      files[index]?.bind (·.lookup key) := by
  cases files[index]? with
  | none => simp
  | some table =>
      rw [Option.any_some, Option.bind_some]
      by_cases inside : table.keyMayExist key = true
      · rw [if_pos inside]
      · rw [if_neg inside,
          SSTable.lookup_outside (Bool.eq_false_of_not_eq_true inside)]

/-- The search that sorted levels without overlaps are analysed with. -/
theorem findSstableIndex_eq (files : List SSTable) (key : String) :
    findSstableIndex files key = findSstableIndexForKey files key := by
  rw [findSstableIndex, findSstableIndexForKey_eq_bind, searchPoint]
  cases files[partitionPoint
      (fun table => decide (table.largestKey < key)) files]? with
  | none => rfl
  | some table => rfl

theorem findSstableForKey_eq (files : List SSTable) (key : String) :
    findSstableForKey files key =
      (findSstableIndex files key).bind (files[·]?) := by
  rw [findSstableIndex_eq, findSstableForKey_eq_getElem]

theorem pinAll_candidates (level : Nat) (files : List SSTable) (key : String) :
    pinAll level files key none (candidateIndices level files key) =
      getFromLevel level files key := by
  cases level with
  | zero =>
      rw [pinAll, candidateIndices, getFromLevel, getFromLevel0, newest,
        filterMap_of_outside fun _ => SSTable.lookup_outside,
        List.filterMap_filter]
      simp only [bind_lookup_of_filter, filterMap_range_getElem?]
  | succ level =>
      rw [pinAll, candidateIndices, getFromLevel, findSstableForKey_eq]
      cases found : findSstableIndex files key with
      | none => rfl
      | some index =>
          have same := bind_lookup_of_filter files key index
          rw [Option.bind_some, ← same]
          by_cases inside : (files[index]?).any (·.keyMayExist key) = true
          · rw [Option.filter_some, if_pos inside, if_pos inside,
              Option.toList_some, List.filterMap_cons, List.filterMap_nil]
            cases files[index]?.bind (·.lookup key) <;> rfl
          · rw [Option.filter_some, if_neg inside, if_neg inside]
            rfl

/-! ## The levels from one on -/

/-- What the levels from `level` on know about a key. -/
def getFromLevels (levelCount : Nat) (levels : Nat → List SSTable)
    (key : String) (level : Nat) : Option SSTableEntry :=
  (List.range' level (levelCount - level)).findSome? fun level =>
    getFromLevel level (levels level) key

section

variable {levelCount : Nat} {levels levels' : Nat → List SSTable}
variable {key : String} {level : Nat}

theorem getFromLevels_zero :
    (getFromLevels levelCount levels key 0).bind SSTableEntry.visible =
      getFromSstables levelCount levels key := by
  rw [getFromLevels, getFromSstables, Nat.sub_zero, List.range_eq_range']

theorem getFromLevels_of_le (below : levelCount ≤ level) :
    getFromLevels levelCount levels key level = none := by
  rw [getFromLevels, Nat.sub_eq_zero_of_le below]
  rfl

theorem getFromLevels_of_lt (inside : level < levelCount) :
    getFromLevels levelCount levels key level =
      (getFromLevel level (levels level) key).or
        (getFromLevels levelCount levels key (level + 1)) := by
  obtain ⟨rest, count⟩ : ∃ rest, levelCount - level = rest + 1 :=
    ⟨levelCount - level - 1, by omega⟩
  have count' : levelCount - (level + 1) = rest := by omega
  rw [getFromLevels, count, List.range'_succ, List.findSome?_cons,
    getFromLevels, count']
  cases getFromLevel level (levels level) key <;> rfl

theorem getFromLevels_congr
    (same : ∀ other, level ≤ other → levels' other = levels other) :
    getFromLevels levelCount levels' key level =
      getFromLevels levelCount levels key level := by
  rw [getFromLevels, getFromLevels]
  have inside : ∀ other ∈ List.range' level (levelCount - level),
      level ≤ other :=
    fun other member => (List.mem_range'_1.mp member).1
  generalize List.range' level (levelCount - level) = range at inside ⊢
  induction range with
  | nil => rfl
  | cons first rest inductionHypothesis =>
      rw [List.findSome?_cons, List.findSome?_cons,
        same first (inside first (List.mem_cons_self ..)),
        inductionHypothesis fun other member =>
          inside other (List.mem_cons_of_mem _ member)]

theorem getFromLevels_of_nil
    (empty : ∀ other, level ≤ other → levels other = []) :
    getFromLevels levelCount levels key level = none := by
  rw [getFromLevels, List.findSome?_eq_none_iff]
  intro other member
  rw [empty other (List.mem_range'_1.mp member).1]
  cases other <;> rfl

theorem getFromLevels_of_missing
    (missing : ∀ other, other < level →
      getFromLevel other (levels other) key = none) :
    getFromLevels levelCount levels key level =
      getFromLevels levelCount levels key 0 := by
  induction level with
  | zero => rfl
  | succ level inductionHypothesis =>
      rw [← inductionHypothesis fun other less => missing other (by omega)]
      by_cases inside : level < levelCount
      · rw [getFromLevels_of_lt inside, missing level (by omega),
          Option.none_or]
      · rw [getFromLevels_of_le (by omega), getFromLevels_of_le (by omega)]

end

/-! ## What an install means for a read that is under way -/

section

variable {config : CompactionConfig} {tree : LsmTree} {key : String}
variable {levels : Nat → List SSTable} {compaction : CompactionRun}

/-- The levels before and after an install, for a key that the memtables do
not hold. -/
structure SameReads (config : CompactionConfig) (tree : LsmTree)
    (levels : Nat → List SSTable) (key : String) : Prop where
  full : getFromSstables config.levelCount levels key =
    getFromSstables config.levelCount tree.levels key
  above : ∀ level, levels (level + 2) = []
  top : getFromLevel 0 (tree.levels 0) key = none →
    getFromLevel 0 (levels 0) key = none ∨
      ∀ level, levels (level + 1) = tree.levels (level + 1)

theorem CompactionRun.Installs.readsBack
    (installs : compaction.Installs config tree levels)
    (readsBack : ∀ level, ∀ table ∈ tree.levels level, table.ReadsBack) :
    ∀ level, ∀ table ∈ levels level, table.ReadsBack := by
  cases compaction with
  | ifNeeded order output =>
      have same : levels = compactIfNeeded config order output tree.levels :=
        installs
      rw [same]
      exact readsBack_compactIfNeeded readsBack
  | all output => exact readsBack_compactAll readsBack installs

theorem CompactionRun.sameReads
    (invariant : tree.Invariant config)
    (keeps : compaction.KeepsReads config tree)
    (installs : compaction.Installs config tree levels)
    (missing : memtableValue (tree.active :: tree.immutables) key = none) :
    SameReads config tree levels key := by
  cases compaction with
  | ifNeeded order output =>
      obtain ⟨fresh, mergesEnd, keepsDeletions⟩ := keeps
      have same : levels = compactIfNeeded config order output tree.levels :=
        installs
      subst same
      have read := (invariant.compactIfNeeded_reads_iff fresh mergesEnd).mpr
        keepsDeletions key
      rw [LsmTree.get_eq, LsmTree.get_eq] at read
      simp only [missing] at read
      refine ⟨read, (invariant.compactIfNeeded fresh mergesEnd).above, ?_⟩
      intro unknown
      cases chosen : levelToCompact config order tree.levels with
      | none =>
          right
          intro level
          rw [compactIfNeeded, chosen]
      | some target =>
          rw [compactIfNeeded_of_some chosen]
          rcases invariant.level_le_one chosen with rfl | rfl
          · exact Or.inr fun level => Function.update_of_ne (by omega) ..
          · left
            rw [Function.update_of_ne (by omega)]
            exact unknown
  | all output =>
      have fresh : FreshOutputs config output tree.levels := keeps
      have compacted : compactAll config output tree.levels = .ok levels :=
        installs
      have after := invariant.compactAll fresh compacted
      rcases invariant.compactAll_cases compacted with same |
        ⟨enough, merged⟩
      · subst same
        exact ⟨rfl, invariant.above, fun _ => Or.inr fun _ => rfl⟩
      · have level0 : levels 0 = [] := by
          rw [merged, Function.update_of_ne (by omega), Function.update_self]
        have level1 : levels 1 =
            mergedTables config output 1 (tree.levels 0 ++ tree.levels 1) := by
          rw [merged, Function.update_self]
        obtain ⟨levelCount, count⟩ : ∃ levelCount,
            config.levelCount = levelCount + 1 :=
          ⟨config.levelCount - 1, by omega⟩
        refine ⟨?_, after.above, fun _ => Or.inl (by rw [level0]; rfl)⟩
        have readAfter := after.getFromSstables_eq count key
        have readBefore := invariant.getFromSstables_eq count key
        rw [← invariant.newestVersion_eq] at readBefore
        simp only [level0, level1] at readAfter
        rw [readAfter, readBefore]
        have none : latest (allEntries []) key = none := rfl
        rw [none, Option.none_or,
          visible_mergedTables invariant.distinctBoth]
        rfl

/-- A read that has found nothing above `level` finds the same in the new
levels as in the old ones. -/
theorem SameReads.getFromLevels
    (same : SameReads config tree levels key)
    (above : ∀ level, tree.levels (level + 2) = []) {level : Nat}
    (missing : ∀ other, other < level →
      getFromLevel other (tree.levels other) key = none) :
    (F4kvsLsm.getFromLevels config.levelCount levels key level).bind
        SSTableEntry.visible =
      getFromSstables config.levelCount tree.levels key := by
  match level with
  | 0 => rw [getFromLevels_zero, same.full]
  | 1 =>
      rcases same.top (missing 0 (by omega)) with unknown | rest
      · have unknown' : ∀ other, other < 1 →
            getFromLevel other (levels other) key = none := by
          intro other less
          obtain rfl : other = 0 := by omega
          exact unknown
        rw [getFromLevels_of_missing unknown', getFromLevels_zero, same.full]
      · have sameRest : ∀ other, 1 ≤ other →
            levels other = tree.levels other := by
          intro other positive
          obtain ⟨below, rfl⟩ := Nat.exists_eq_add_of_le' positive
          exact rest below
        rw [getFromLevels_congr sameRest, getFromLevels_of_missing missing,
          getFromLevels_zero]
  | level + 2 =>
      have nothing : ∀ levels' : Nat → List SSTable,
          (∀ level, levels' (level + 2) = []) →
          F4kvsLsm.getFromLevels config.levelCount levels' key (level + 2) =
            none := by
        intro levels' empty
        refine getFromLevels_of_nil fun other large => ?_
        obtain ⟨more, rfl⟩ := Nat.exists_eq_add_of_le' large
        exact empty (more + level)
      rw [nothing levels same.above, ← getFromLevels_zero,
        ← getFromLevels_of_missing missing, nothing tree.levels above]

/-! ## The run -/

/-- The levels from `level` on decide, and they decide right. -/
def Ahead (config : CompactionConfig) (tree : LsmTree) (key : String)
    (state : GetState) (level : Nat) : Prop :=
  state.installed = false ∧ state.tree = tree ∧
      (∀ other, other < level →
        getFromLevel other (tree.levels other) key = none) ∨
    state.installed = true ∧
      (getFromLevels config.levelCount state.tree.levels key level).bind
          SSTableEntry.visible =
        getFromSstables config.levelCount tree.levels key

/-- The read will return what it should have returned at its start. -/
def OnCourse (config : CompactionConfig) (tree : LsmTree) (key : String)
    (state : GetState) : Prop :=
  match state.call with
  | .memtables =>
      memtableValue (tree.active :: tree.immutables) key = none →
        Ahead config tree key state 0
  | .collecting level =>
      memtableValue (tree.active :: tree.immutables) key = none ∧
        Ahead config tree key state level
  | .pinning level seen best indices =>
      memtableValue (tree.active :: tree.immutables) key = none ∧
        (level ≠ 0 → best = none) ∧
        match pinAll level seen key best indices with
        | some entry => entry.visible =
            getFromSstables config.levelCount tree.levels key
        | none => Ahead config tree key state (level + 1)
  | .returned value => value = tree.get config.levelCount key

variable {state : GetState}

/-- The level that the read comes to answers right, or the levels below it
do. -/
theorem Ahead.next
    {level : Nat} (ahead : Ahead config tree key state level)
    (inside : level < config.levelCount) :
    match getFromLevel level (state.tree.levels level) key with
    | some entry => entry.visible =
        getFromSstables config.levelCount tree.levels key
    | none => Ahead config tree key state (level + 1) := by
  rcases ahead with ⟨early, same, missing⟩ | ⟨late, right⟩
  · have read : (getFromLevels config.levelCount tree.levels key level).bind
        SSTableEntry.visible =
          getFromSstables config.levelCount tree.levels key := by
      rw [getFromLevels_of_missing missing, getFromLevels_zero]
    rw [getFromLevels_of_lt inside] at read
    rw [same]
    cases found : getFromLevel level (tree.levels level) key with
    | some entry =>
        rw [found, Option.some_or, Option.bind_some] at read
        exact read
    | none =>
        refine Or.inl ⟨early, same, fun other less => ?_⟩
        rcases Nat.lt_succ_iff_lt_or_eq.mp less with before | rfl
        · exact missing other before
        · exact found
  · rw [getFromLevels_of_lt inside] at right
    cases found : getFromLevel level (state.tree.levels level) key with
    | some entry =>
        rw [found, Option.some_or, Option.bind_some] at right
        exact right
    | none =>
        rw [found, Option.none_or] at right
        exact Or.inr ⟨late, right⟩

/-- Behind the last level nothing is found. -/
theorem Ahead.exhausted
    {level : Nat} (ahead : Ahead config tree key state level)
    (outside : ¬ level < config.levelCount) :
    getFromSstables config.levelCount tree.levels key = none := by
  rcases ahead with ⟨-, -, missing⟩ | ⟨-, right⟩
  · rw [← getFromLevels_zero, ← getFromLevels_of_missing missing,
      getFromLevels_of_le (by omega)]
    rfl
  · rw [← right, getFromLevels_of_le (by omega)]
    rfl

theorem Ahead.install
    {level : Nat} (ahead : Ahead config tree key state level)
    (invariant : tree.Invariant config)
    (missing : memtableValue (tree.active :: tree.immutables) key = none)
    (early : state.installed = false)
    (keeps : compaction.KeepsReads config state.tree)
    (installs : compaction.Installs config state.tree levels) :
    Ahead config tree key
      { state with
        tree := { state.tree with levels := levels }
        installed := true } level := by
  rcases ahead with ⟨-, same, above⟩ | ⟨late, -⟩
  · rw [same] at keeps installs
    refine Or.inr ⟨rfl, ?_⟩
    exact (CompactionRun.sameReads invariant keeps installs
      missing).getFromLevels invariant.above above
  · rw [early] at late
    exact absurd late (by simp)

/-- A pin that meets the collected table does not change what the level
answers. -/
theorem onCourse_afterLookup
    {level index : Nat} {seen : List SSTable} {best : Option SSTableEntry}
    {indices : List Nat} {installed : Bool} {current : LsmTree}
    (course : OnCourse config tree key
      ⟨current, .pinning level seen best (index :: indices), installed⟩) :
    OnCourse config tree key
      ⟨current, afterLookup level seen best indices
        (seen[index]?.bind (·.lookup key)), installed⟩ := by
  obtain ⟨missing, first, outcome⟩ := course
  simp only [pinAll, List.filterMap_cons] at outcome
  cases hit : seen[index]?.bind (·.lookup key) with
  | none =>
      rw [hit] at outcome
      exact ⟨missing, first, outcome⟩
  | some entry =>
      rw [hit] at outcome
      cases level with
      | zero => exact ⟨missing, fun above => absurd rfl above, outcome⟩
      | succ level =>
          have right : entry.visible =
              getFromSstables config.levelCount tree.levels key := outcome
          rw [afterLookup, if_neg (Nat.succ_ne_zero level), OnCourse,
            LsmTree.get_eq, missing]
          exact right

theorem bind_lookupLogged
    {files : List SSTable} (readsBack : ∀ table ∈ files, table.ReadsBack)
    (key : String) (index : Nat) :
    files[index]?.bind (·.lookupLogged .records key) =
      files[index]?.bind (·.lookup key) := by
  cases here : files[index]? with
  | none => rfl
  | some table =>
      exact (readsBack table (List.mem_of_getElem? here)).lookupLogged_records
        key

theorem OnCourse.read
    (sameMemtables : state.tree.active :: state.tree.immutables =
      tree.active :: tree.immutables)
    (readsBack : ∀ level, ∀ table ∈ state.tree.levels level,
      table.ReadsBack)
    (course : OnCourse config tree key state)
    (pins : PinsCollected config state .read) :
    OnCourse config tree key
      { state with
        call := getStep config.levelCount state.tree key state.call } := by
  obtain ⟨current, call, installed⟩ := state
  cases call with
  | memtables =>
      rw [getStep, sameMemtables, getFromMemtables_eq]
      cases found : memtableValue (tree.active :: tree.immutables) key with
      | none => exact ⟨found, course found⟩
      | some value =>
          have read : tree.get config.levelCount key = value.visible := by
            rw [LsmTree.get_eq, found]
          by_cases null : value.isNull = true
          · simp only [if_pos null]
            rw [OnCourse, read, Value.visible, if_pos null]
          · simp only [if_neg null]
            rw [OnCourse, read, Value.visible, if_neg null]
  | collecting level =>
      obtain ⟨missing, ahead⟩ := course
      rw [getStep]
      by_cases inside : level < config.levelCount
      · rw [if_pos inside]
        refine ⟨missing, fun _ => rfl, ?_⟩
        rw [pinAll_candidates]
        exact ahead.next inside
      · rw [if_neg inside, OnCourse, LsmTree.get_eq, missing]
        exact (ahead.exhausted inside).symm
  | pinning level seen best indices =>
      cases indices with
      | cons index indices =>
          rw [getStep, bind_lookupLogged (readsBack level),
            pins level seen best index indices rfl]
          exact onCourse_afterLookup course
      | nil =>
          obtain ⟨missing, first, outcome⟩ := course
          cases best with
          | some entry =>
              have bottom : level = 0 := by
                by_contra above
                exact absurd (first above) (by simp)
              subst bottom
              have right : entry.visible =
                  getFromSstables config.levelCount tree.levels key :=
                outcome
              rw [getStep, OnCourse, LsmTree.get_eq, missing]
              exact right
          | none =>
              rw [getStep]
              cases level with
              | zero => exact ⟨missing, outcome⟩
              | succ level => exact ⟨missing, outcome⟩
  | returned value => exact course

theorem OnCourse.install
    (invariant : tree.Invariant config)
    (course : OnCourse config tree key state)
    (early : state.installed = false)
    (keeps : compaction.KeepsReads config state.tree)
    (installs : compaction.Installs config state.tree levels) :
    OnCourse config tree key
      { state with
        tree := { state.tree with levels := levels }
        installed := true } := by
  obtain ⟨current, call, installed⟩ := state
  cases call with
  | memtables =>
      exact fun missing => (course missing).install invariant missing early
        keeps installs
  | collecting level =>
      exact ⟨course.1, course.2.install invariant course.1 early keeps
        installs⟩
  | pinning level seen best indices =>
      obtain ⟨missing, first, outcome⟩ := course
      refine ⟨missing, first, ?_⟩
      cases found : pinAll level seen key best indices with
      | some entry =>
          rw [found] at outcome
          exact outcome
      | none =>
          rw [found] at outcome
          exact outcome.install invariant missing early keeps installs
  | returned value => exact course

end

/-! ## The read returns -/

/-- The read leaves a level, to the next one or with a result. -/
def Leaves (levelCount : Nat) (tree : LsmTree) (key : String) (level : Nat)
    (call : GetCall) : Prop :=
  ∃ steps, (getStep levelCount tree key)^[steps] call =
      .collecting (level + 1) ∨
    ∃ value, (getStep levelCount tree key)^[steps] call = .returned value

theorem Leaves.of_step
    {levelCount level : Nat} {tree : LsmTree} {key : String}
    {call call' : GetCall} (step : getStep levelCount tree key call = call')
    (leaves : Leaves levelCount tree key level call') :
    Leaves levelCount tree key level call := by
  obtain ⟨steps, ends⟩ := leaves
  refine ⟨steps + 1, ?_⟩
  rw [Function.iterate_succ_apply, step]
  exact ends

/-- The pins of one level come to an end. -/
theorem pinning_leaves
    (levelCount : Nat) (tree : LsmTree) (key : String) (level : Nat)
    (seen : List SSTable) (best : Option SSTableEntry)
    (indices : List Nat) :
    Leaves levelCount tree key level (.pinning level seen best indices) := by
  induction indices generalizing best with
  | nil =>
      cases best with
      | none => exact ⟨1, Or.inl rfl⟩
      | some entry => exact ⟨1, Or.inr ⟨entry.visible, rfl⟩⟩
  | cons index indices inductionHypothesis =>
      cases hit : (tree.levels level)[index]?.bind
          (·.lookupLogged .records key) with
      | none =>
          refine Leaves.of_step ?_ (inductionHypothesis best)
          rw [getStep, hit]
          rfl
      | some entry =>
          by_cases bottom : level = 0
          · refine Leaves.of_step ?_ (inductionHypothesis (keepNewer
              SSTableEntry.timestamp best entry))
            rw [getStep, hit, afterLookup, if_pos bottom]
          · refine ⟨1, Or.inr ⟨entry.visible, ?_⟩⟩
            rw [Function.iterate_one, getStep, hit, afterLookup,
              if_neg bottom]

theorem collecting_returns
    (levelCount : Nat) (tree : LsmTree) (key : String) (rest level : Nat)
    (bound : levelCount ≤ level + rest) :
    ∃ steps value, (getStep levelCount tree key)^[steps]
      (.collecting level) = .returned value := by
  induction rest generalizing level with
  | zero =>
      refine ⟨1, none, ?_⟩
      rw [Function.iterate_one, getStep, if_neg (by omega)]
  | succ rest inductionHypothesis =>
      by_cases inside : level < levelCount
      · obtain ⟨steps, next | ⟨value, done⟩⟩ := pinning_leaves levelCount
          tree key level (tree.levels level) none
          (candidateIndices level (tree.levels level) key)
        · obtain ⟨more, value, done⟩ :=
            inductionHypothesis (level + 1) (by omega)
          refine ⟨more + (steps + 1), value, ?_⟩
          rw [Function.iterate_add_apply, Function.iterate_succ_apply,
            getStep, if_pos inside, next, done]
        · refine ⟨steps + 1, value, ?_⟩
          rw [Function.iterate_succ_apply, getStep, if_pos inside, done]
      · refine ⟨1, none, ?_⟩
        rw [Function.iterate_one, getStep, if_neg inside]

/-- The steps of a read lead to a result. -/
theorem getStep_returns
    (levelCount : Nat) (tree : LsmTree) (key : String) (call : GetCall) :
    ∃ steps value,
      (getStep levelCount tree key)^[steps] call = .returned value := by
  have collecting : ∀ level, ∃ steps value,
      (getStep levelCount tree key)^[steps] (.collecting level) =
        .returned value :=
    fun level => collecting_returns levelCount tree key levelCount level
      (by omega)
  cases call with
  | memtables =>
      cases found : getFromMemtables (tree.active :: tree.immutables) key with
      | found value =>
          exact ⟨1, some value, by rw [Function.iterate_one, getStep, found]⟩
      | tombstone =>
          exact ⟨1, none, by rw [Function.iterate_one, getStep, found]⟩
      | missing =>
          obtain ⟨steps, value, done⟩ := collecting 0
          refine ⟨steps + 1, value, ?_⟩
          rw [Function.iterate_succ_apply, getStep, found, done]
  | collecting level => exact collecting level
  | pinning level seen best indices =>
      obtain ⟨steps, next | ⟨value, done⟩⟩ :=
        pinning_leaves levelCount tree key level seen best indices
      · obtain ⟨more, value, done⟩ := collecting (level + 1)
        exact ⟨more + steps, value, by
          rw [Function.iterate_add_apply, next, done]⟩
      · exact ⟨steps, value, done⟩
  | returned value => exact ⟨0, value, rfl⟩

/-- A read whose pins meet the tables that it collected returns, and it
returns the current value of the key. -/
theorem get_beside_install
    (config : CompactionConfig) (tree : LsmTree)
    (reachable : Reachable config tree) (key : String) {state : GetState}
    (run : Reaches (GetStep config key) (PinsCollected config)
      ⟨tree, .memtables, false⟩ state) :
    (∃ steps value, (getStep config.levelCount state.tree key)^[steps]
        state.call = .returned value) ∧
      ∀ value, state.call = .returned value →
        value = tree.getChecked config.levelCount key := by
  have readsBack := reachable.readsBack.tables
  refine ⟨getStep_returns _ _ _ _, ?_⟩
  have kept : (state.tree.active :: state.tree.immutables =
      tree.active :: tree.immutables ∧
      ∀ level, ∀ table ∈ state.tree.levels level, table.ReadsBack) ∧
      OnCourse config tree key state := by
    refine run.invariant
      (fun state => (state.tree.active :: state.tree.immutables =
        tree.active :: tree.immutables ∧
        ∀ level, ∀ table ∈ state.tree.levels level, table.ReadsBack) ∧
        OnCourse config tree key state)
      ⟨⟨rfl, readsBack⟩, fun _ => Or.inl ⟨rfl, rfl, fun _ less =>
        absurd less (Nat.not_lt_zero _)⟩⟩ ?_
    intro before action after kept meets taken
    obtain ⟨⟨memtables, tables⟩, course⟩ := kept
    cases taken with
    | read => exact ⟨⟨memtables, tables⟩, course.read memtables tables meets⟩
    | install early installs =>
        exact ⟨⟨memtables, installs.readsBack tables⟩,
          course.install reachable.invariant early meets installs⟩
  intro value returned
  have course := kept.2
  rw [OnCourse, returned] at course
  rw [LsmTree.getChecked_eq readsBack]
  exact course

/-- `compact_all` installs its result while a read of `a` is between the
memtables and level 0. -/
theorem readTwoTables_current :
    some (.bool true) = twoTables.getChecked 7 "a" := by
  have start : Reaches (GetStep leveledConfig "a")
      (PinsCollected leveledConfig) ⟨twoTables, .memtables, false⟩
      ⟨twoTables, .memtables, false⟩ := Reaches.start _
  have fresh : FreshOutputs leveledConfig (outputFiles 10)
      twoTables.levels := by
    intro levels same
    rw [← Except.ok.inj same]
    decide
  have collecting := ((start.next .read (by rintro _ _ _ _ _ ⟨⟩)
    .read).next (.install (.all (outputFiles 10))) fresh
      (.install rfl rfl)).next .read (by rintro _ _ _ _ _ ⟨⟩) .read
  have pinned := ((collecting.next .read (by rintro _ _ _ _ _ ⟨⟩)
    .read).next .read (by rintro _ _ _ _ _ ⟨⟩) .read).next .read
      (by rintro _ _ _ _ _ ⟨⟩; rfl) .read
  exact (get_beside_install leveledConfig twoTables twoTables_reachable "a"
    pinned).2 (some (.bool true)) rfl

theorem reads_reached
    {config : CompactionConfig} {key : String} {start : GetState}
    (state : GetState) (steps : Nat)
    (run : Reaches (GetStep config key) (fun _ _ => True) start state) :
    Reaches (GetStep config key) (fun _ _ => True) start
      { state with
        call := (getStep config.levelCount state.tree key)^[steps]
          state.call } := by
  induction steps with
  | zero => exact run
  | succ steps inductionHypothesis =>
      rw [Function.iterate_succ_apply']
      exact inductionHypothesis.next .read trivial .read

/-- Three tables of level 0 become one after the read has collected the
index of the second. -/
def afterMerge : LsmTree :=
  { threeTables with
    levels := compactIfNeeded leveledConfig [] (outputFiles 10)
      threeTables.levels }

theorem read_misses_moved_table :
    Reachable leveledConfig threeTables ∧
      threeTables.getChecked 7 "a" = some (.bool true) ∧
      afterMerge.getChecked 7 "a" = some (.bool true) ∧
      Reaches (GetStep leveledConfig "a") (fun _ _ => True)
        ⟨threeTables, .memtables, false⟩
        ⟨afterMerge, .returned none, true⟩ := by
  have start : Reaches (GetStep leveledConfig "a") (fun _ _ => True)
      ⟨threeTables, .memtables, false⟩ ⟨threeTables, .memtables, false⟩ :=
    Reaches.start _
  have installed := (reads_reached _ 2 start).next
    (.install (.ifNeeded [] (outputFiles 10))) trivial (.install rfl rfl)
  refine ⟨threeTables_reachable, rfl, rfl, ?_⟩
  exact reads_reached _ 16 installed

end F4kvsLsm
