import F4kvsLsm.Lib.HighWater
import F4kvsLsm.Compaction.Crash

/-!
# The sequence number across restarts

One counter names the flushed files and stamps their entries.  A flush writes
its file before it writes the counter to `SEQUENCE`, and a compaction moves
entries into files whose names carry no number, so a new engine finds the
counter again from the names, from the names and the entry counts, and from
`SEQUENCE` together.
-/

namespace F4kvsLsm

open HighWater

/-! ## The data directory -/

/-- Tables, the names of files that do not open, and the number in
`SEQUENCE`, 0 without the file. -/
structure DataDirectory where
  tables : List SSTable
  torn : List SstableName
  sequenceFile : Nat

/-- What a flush that fails to write leaves of its file.  The last call of the
write may fail with the whole file on disk. -/
inductive LeftFile where
  | nothing
  | torn
  | whole

inductive FlushEnd where
  | failedWriting (left : LeftFile)
  | failedOpening
  | done

namespace DataDirectory

def empty : DataDirectory := ⟨[], [], 0⟩

variable (dir : DataDirectory)

def names : List SstableName :=
  dir.tables.map (·.name) ++ dir.torn

def leave (table : SSTable) : LeftFile → DataDirectory
  | .nothing => dir
  | .torn => { dir with torn := dir.torn ++ [table.name] }
  | .whole => { dir with tables := dir.tables ++ [table] }

/-- `flush_memtable_internal` on a directory: the file is written, then the
counter, then the file is opened and shown to readers. -/
def flush (info : TableInfo) (tree : LsmTree) (ending : FlushEnd) :
    DataDirectory × LsmTree :=
  let table := LsmTree.flushedTable dir.names info tree
  let next := LsmTree.sequenceAfterFlush dir.names tree
  if tree.active.entryCount > 0 then
    match ending with
    | .failedWriting left =>
        (dir.leave table left,
          (tree.flushMemtableInternal dir.names info .failedWriting).1)
    | .failedOpening =>
        ({ dir with tables := dir.tables ++ [table], sequenceFile := next },
          (tree.flushMemtableInternal dir.names info .failedOpening).1)
    | .done =>
        ({ dir with tables := dir.tables ++ [table], sequenceFile := next },
          (tree.flushMemtableInternal dir.names info .done).1)
  else (dir, (tree.flushMemtableInternal dir.names info .done).1)

/-- `load_existing_sstables` on a directory of which `opened` can be opened;
the log gives the active memtable back. -/
def load (opened : List SSTable) (active : Memtable) :
    DataDirectory × LsmTree :=
  let loaded := loadExistingSstables dir.names opened dir.sequenceFile
  ({ dir with
      sequenceFile :=
        if loaded.2 > dir.sequenceFile then loaded.2 else dir.sequenceFile },
    ⟨active, [], loaded.1, loaded.2⟩)

def withOutputs (config : CompactionConfig) (output : OutputFiles)
    (plan : Option CompactionPlan) : DataDirectory :=
  match plan with
  | some plan =>
      { dir with tables := dir.tables ++ plan.outputs config output }
  | none => dir

end DataDirectory

/-! ## Runs -/

/-- What an engine does between two starts.  A compaction may stop at any of
its outputs, which then stay on disk, and its inputs may be unlinked at any
time after it or never. -/
inductive DirectoryStep (config : CompactionConfig) :
    DataDirectory × LsmTree → DataDirectory × LsmTree → Prop
  | write {dir : DataDirectory} {tree : LsmTree} (active : Memtable) :
      DirectoryStep config (dir, tree) (dir, { tree with active := active })
  | flush {dir : DataDirectory} {tree : LsmTree} (info : TableInfo)
      (ending : FlushEnd) :
      DirectoryStep config (dir, tree) (dir.flush info tree ending)
  | stopCompacting {dir : DataDirectory} {tree : LsmTree} (order : List Nat)
      (output : OutputFiles) (plan : CompactionPlan)
      (written : List SSTable) (torn : List SstableName) :
      Planned config order tree.levels plan →
      written <+: plan.outputs config output →
      torn ⊆ (plan.outputs config output).map (·.name) →
      DirectoryStep config (dir, tree)
        ({ dir with tables := dir.tables ++ written, torn := dir.torn ++ torn },
          tree)
  | compactIfNeeded {dir : DataDirectory} {tree : LsmTree}
      (order : List Nat) (output : OutputFiles) :
      DirectoryStep config (dir, tree)
        (dir.withOutputs config output (planIfNeeded config order tree.levels),
          { tree with
            levels := compactIfNeeded config order output tree.levels })
  | compactAll {dir : DataDirectory} {tree : LsmTree} (output : OutputFiles)
      {levels : Nat → List SSTable} :
      compactAll config output tree.levels = .ok levels →
      DirectoryStep config (dir, tree)
        (dir.withOutputs config output (planAll config tree.levels),
          { tree with levels := levels })
  | unlink {dir : DataDirectory} {tree : LsmTree} {left : List SSTable} :
      left.Sublist dir.tables →
      (∀ level, ∀ table ∈ tree.levels level, table ∈ dir.tables →
        table ∈ left) →
      DirectoryStep config (dir, tree) ({ dir with tables := left }, tree)

/-- A directory and the engine that works on it, if one does. -/
structure SequenceState where
  dir : DataDirectory
  engine : Option LsmTree

/-- Steps of an engine, crashes and starts. -/
inductive SequenceStep (config : CompactionConfig) :
    SequenceState → SequenceState → Prop
  | run {dir dir' : DataDirectory} {tree tree' : LsmTree} :
      DirectoryStep config (dir, tree) (dir', tree') →
      SequenceStep config ⟨dir, some tree⟩ ⟨dir', some tree'⟩
  | crash {dir : DataDirectory} {engine : Option LsmTree} :
      SequenceStep config ⟨dir, engine⟩ ⟨dir, none⟩
  | start {dir : DataDirectory} (opened : List SSTable) (active : Memtable) :
      opened.Subperm dir.tables →
      SequenceStep config ⟨dir, none⟩
        ⟨(dir.load opened active).1, some (dir.load opened active).2⟩

/-! ## What every step keeps -/

/-- The timestamps in a table. -/
def SSTable.stamps (table : SSTable) : List Nat :=
  table.entries.map (·.timestamp)

/-- What the name of a flushed table says of its timestamps. -/
def SSTable.lastStamp (table : SSTable) : Option Nat :=
  table.name.flushSequence.map (· + table.entries.length)

/-- All timestamps in a list of tables are below a number. -/
def StampsBelow (bound : Nat) (files : List SSTable) : Prop :=
  ∀ table ∈ files, ∀ stamp ∈ table.stamps, stamp < bound

def DataDirectory.Marked (dir : DataDirectory) : Prop :=
  Covered SSTable.stamps SSTable.lastStamp dir.sequenceFile dir.tables

/-- The tables of an engine are below `SEQUENCE`, and its counter is above
every name in the directory. -/
structure EngineMarked (dir : DataDirectory) (tree : LsmTree) : Prop where
  marked : dir.Marked
  live : ∀ level, StampsBelow dir.sequenceFile (tree.levels level)
  counter : dir.sequenceFile ≤ tree.sequenceNumber
  named : ∀ name ∈ dir.names, ∀ sequence,
    name.flushSequence = some sequence → sequence < tree.sequenceNumber

/-! ### Flushes -/

section

variable {existing : List SstableName} {info : TableInfo} {tree : LsmTree}

theorem flushedTable_flushSequence :
    (LsmTree.flushedTable existing info tree).name.flushSequence =
      some (LsmTree.freeSequence existing (existing.length + 1)
        tree.sequenceNumber) := rfl

theorem length_flushedTable :
    (LsmTree.flushedTable existing info tree).entries.length =
      tree.active.getAllEntries.length := by
  have sorted := tree.active.getAllEntries_sorted
  simp only [LsmTree.flushedTable, LsmTree.stampEntries_eq sorted,
    List.length_mapIdx]

/-- A flushed table keeps within the promise of its name. -/
theorem flushedTable_covered (mark : Nat) :
    Covered SSTable.stamps SSTable.lastStamp mark
      [LsmTree.flushedTable existing info tree] := by
  intro table member
  rw [List.mem_singleton] at member
  subst member
  have promise : (LsmTree.flushedTable existing info tree).lastStamp =
      some (LsmTree.freeSequence existing (existing.length + 1)
        tree.sequenceNumber + tree.active.getAllEntries.length) := by
    rw [SSTable.lastStamp, flushedTable_flushSequence, length_flushedTable]
    rfl
  refine Or.inr ⟨_, promise, ?_⟩
  intro stamp stamped
  rcases List.mem_map.mp stamped with ⟨entry, inTable, same⟩
  have last :=
    (LsmTree.mem_stampEntries tree.active.getAllEntries_sorted inTable).2.2
  omega

theorem flushedTable_below :
    StampsBelow (LsmTree.sequenceAfterFlush existing tree)
      [LsmTree.flushedTable existing info tree] := by
  intro table member stamp stamped
  rw [List.mem_singleton] at member
  subst member
  rcases List.mem_map.mp stamped with ⟨entry, inTable, same⟩
  rw [← same]
  exact (LsmTree.mem_flushedTable inTable).2.2.2

theorem flush_sequenceNumber (existing : List SstableName)
    (info : TableInfo) (outcome : FlushOutcome)
    (nonempty : tree.active.entryCount > 0) :
    (tree.flushMemtableInternal existing info outcome).1.sequenceNumber =
      LsmTree.sequenceAfterFlush existing tree := by
  unfold LsmTree.flushMemtableInternal
  rw [if_pos nonempty]
  cases outcome <;> rfl

theorem flush_levels_of_failed (existing : List SstableName)
    (info : TableInfo) {outcome : FlushOutcome} (failed : outcome ≠ .done)
    (nonempty : tree.active.entryCount > 0) :
    (tree.flushMemtableInternal existing info outcome).1.levels =
      tree.levels := by
  unfold LsmTree.flushMemtableInternal
  rw [if_pos nonempty]
  cases outcome with
  | done => exact absurd rfl failed
  | failedWriting | failedOpening => rfl

end

theorem StampsBelow.raise {bound bound' : Nat} {files : List SSTable}
    (below : StampsBelow bound files) (up : bound ≤ bound') :
    StampsBelow bound' files :=
  fun table member stamp stamped =>
    (below table member stamp stamped).trans_le up

theorem StampsBelow.append {bound : Nat} {files files' : List SSTable}
    (below : StampsBelow bound files) (below' : StampsBelow bound files') :
    StampsBelow bound (files ++ files') := by
  intro table member
  rcases List.mem_append.mp member with front | back
  · exact below table front
  · exact below' table back

/-- The names of a directory whose files are added to another. -/
theorem DataDirectory.mem_names {dir : DataDirectory} {name : SstableName} :
    name ∈ dir.names ↔
      (∃ table ∈ dir.tables, table.name = name) ∨ name ∈ dir.torn := by
  rw [DataDirectory.names, List.mem_append, List.mem_map]

section

variable {config : CompactionConfig} {dir : DataDirectory} {tree : LsmTree}

theorem EngineMarked.named_flushed (marks : EngineMarked dir tree)
    (info : TableInfo) {name : SstableName} {sequence : Nat}
    (found : name.flushSequence = some sequence)
    (member : name ∈ dir.names ∨
      name = (LsmTree.flushedTable dir.names info tree).name) :
    sequence < LsmTree.sequenceAfterFlush dir.names tree := by
  have grown := LsmTree.le_freeSequence dir.names (dir.names.length + 1)
    tree.sequenceNumber
  rw [LsmTree.sequenceAfterFlush]
  rcases member with old | new
  · have below := marks.named name old sequence found
    omega
  · rw [new, flushedTable_flushSequence, Option.some.injEq] at found
    omega

theorem EngineMarked.leave (marks : EngineMarked dir tree)
    (info : TableInfo) (left : LeftFile)
    (nonempty : tree.active.entryCount > 0) :
    EngineMarked
      (dir.leave (LsmTree.flushedTable dir.names info tree) left)
      (tree.flushMemtableInternal dir.names info .failedWriting).1 := by
  have grown : tree.sequenceNumber ≤
      LsmTree.sequenceAfterFlush dir.names tree :=
    (LsmTree.le_sequenceAfterFlush dir.names tree).le
  have number :=
    flush_sequenceNumber dir.names info .failedWriting nonempty
  have levels := flush_levels_of_failed dir.names info
    (by simp : FlushOutcome.failedWriting ≠ .done) nonempty
  have mark : (dir.leave (LsmTree.flushedTable dir.names info tree)
      left).sequenceFile = dir.sequenceFile := by
    cases left <;> rfl
  constructor
  case marked =>
    cases left with
    | nothing | torn => exact marks.marked
    | whole => exact marks.marked.append (flushedTable_covered _)
  case live =>
    rw [levels, mark]
    exact marks.live
  case counter =>
    rw [number, mark]
    exact marks.counter.trans grown
  case named =>
    intro name member sequence found
    rw [number]
    apply marks.named_flushed info found
    cases left with
    | nothing => exact Or.inl member
    | torn | whole =>
        simp only [DataDirectory.leave, DataDirectory.mem_names,
          List.mem_append, List.mem_singleton] at member ⊢
        grind

/-- After the counter is on disk it does not matter whether the table is
shown. -/
theorem EngineMarked.persist (marks : EngineMarked dir tree)
    (info : TableInfo) {outcome : FlushOutcome}
    (written : outcome ≠ .failedWriting)
    (nonempty : tree.active.entryCount > 0) :
    EngineMarked
      { dir with
        tables := dir.tables ++ [LsmTree.flushedTable dir.names info tree]
        sequenceFile := LsmTree.sequenceAfterFlush dir.names tree }
      (tree.flushMemtableInternal dir.names info outcome).1 := by
  have grown : dir.sequenceFile ≤
      LsmTree.sequenceAfterFlush dir.names tree :=
    marks.counter.trans (LsmTree.le_sequenceAfterFlush dir.names tree).le
  have number := flush_sequenceNumber dir.names info outcome nonempty
  constructor
  case marked =>
    exact (marks.marked.raise grown).append
      (Covered.of_below flushedTable_below)
  case live =>
    cases outcome with
    | failedWriting => exact absurd rfl written
    | failedOpening =>
        rw [flush_levels_of_failed dir.names info (by simp) nonempty]
        exact fun level => (marks.live level).raise grown
    | done =>
        intro level
        simp only [LsmTree.flushMemtableInternal, if_pos nonempty]
        cases level with
        | zero =>
            rw [LsmTree.publish, Function.update_self]
            exact ((marks.live 0).raise grown).append flushedTable_below
        | succ level =>
            rw [publish_succ]
            exact (marks.live _).raise grown
  case counter => exact number.ge
  case named =>
    intro name member sequence found
    rw [number]
    apply marks.named_flushed info found
    simp only [DataDirectory.mem_names, List.mem_append,
      List.mem_singleton] at member ⊢
    grind

theorem EngineMarked.of_levels (marks : EngineMarked dir tree)
    {tree' : LsmTree} (levels : tree'.levels = tree.levels)
    (counter : tree.sequenceNumber ≤ tree'.sequenceNumber) :
    EngineMarked dir tree' := by
  constructor
  case marked => exact marks.marked
  case live =>
    rw [levels]
    exact marks.live
  case counter => exact marks.counter.trans counter
  case named =>
    intro name member sequence found
    exact (marks.named name member sequence found).trans_le counter

theorem EngineMarked.flush (marks : EngineMarked dir tree)
    (info : TableInfo) (ending : FlushEnd) :
    EngineMarked (dir.flush info tree ending).1
      (dir.flush info tree ending).2 := by
  unfold DataDirectory.flush
  split
  · case isTrue nonempty =>
      cases ending with
      | failedWriting left => exact marks.leave info left nonempty
      | failedOpening => exact marks.persist info (by simp) nonempty
      | done => exact marks.persist info (by simp) nonempty
  · case isFalse empty =>
      apply marks.of_levels
      · rw [LsmTree.flushMemtableInternal, if_neg empty]
      · rw [LsmTree.flushMemtableInternal, if_neg empty]

end

/-! ### Compactions -/

theorem mem_of_mem_mergedTables {config : CompactionConfig}
    {output : OutputFiles} {level : Nat} {files : List SSTable}
    {entry : SSTableEntry}
    (member : entry ∈ allEntries (mergedTables config output level files)) :
    entry ∈ allEntries files := by
  rw [mergedTables, allEntries_createNewSstables] at member
  have merged := (dedupLoop_sublist [] _).subset member
  rw [sortEntries, List.mem_insertionSort, mergeSstablesSafe, sortEntries,
    List.mem_insertionSort] at merged
  exact merged

theorem mergedTables_below {bound : Nat} {files : List SSTable}
    (below : StampsBelow bound files) (config : CompactionConfig)
    (output : OutputFiles) (level : Nat) :
    StampsBelow bound (mergedTables config output level files) := by
  intro table member stamp stamped
  rcases List.mem_map.mp stamped with ⟨entry, inTable, same⟩
  have merged := mem_of_mem_mergedTables
    (mem_allEntries.mpr ⟨table, member, inTable⟩)
  rcases mem_allEntries.mp merged with ⟨source, input, inSource⟩
  exact below source input stamp (List.mem_map.mpr ⟨entry, inSource, same⟩)

/-- The names of outputs carry no number. -/
theorem mergedTables_flushSequence {config : CompactionConfig}
    {output : OutputFiles} {level : Nat} {files : List SSTable}
    {table : SSTable} (member : table ∈ mergedTables config output level files) :
    table.name.flushSequence = none := by
  rw [mergedTables, createNewSstables, List.mem_mapIdx] at member
  rcases member with ⟨index, bound, same⟩
  rw [← same]
  rfl

section

variable {config : CompactionConfig} {order : List Nat}
variable {output : OutputFiles} {dir : DataDirectory} {tree : LsmTree}

theorem EngineMarked.outputs_below (marks : EngineMarked dir tree)
    (output : OutputFiles) {plan : CompactionPlan}
    (planned : Planned config order tree.levels plan) :
    StampsBelow dir.sequenceFile (plan.outputs config output) := by
  apply mergedTables_below
  intro table member
  rcases planned with some | all
  · rw [planIfNeeded, Option.map_eq_some_iff] at some
    rcases some with ⟨level, _, same⟩
    rw [← same] at member
    exact marks.live level table
      (compactedGroup_sub config order tree.levels level table member)
  · rw [planAll] at all
    split at all
    · exact absurd all (by simp)
    · rw [← Option.some.inj all] at member
      rcases List.mem_append.mp member with top | low
      · exact marks.live 0 table (List.mem_filter.mp top).1
      · exact marks.live 1 table (List.mem_filter.mp low).1

/-- Outputs on disk, whole or not, change nothing for the engine. -/
theorem EngineMarked.withFiles (marks : EngineMarked dir tree)
    {plan : CompactionPlan} (planned : Planned config order tree.levels plan)
    {written : List SSTable} {torn : List SstableName}
    (begun : written ⊆ plan.outputs config output)
    (cut : torn ⊆ (plan.outputs config output).map (·.name)) :
    EngineMarked
      { dir with tables := dir.tables ++ written, torn := dir.torn ++ torn }
      tree := by
  have below := marks.outputs_below output planned
  constructor
  case marked =>
    apply Covered.append marks.marked
    apply Covered.of_below
    intro table member
    exact below table (begun member)
  case live => exact marks.live
  case counter => exact marks.counter
  case named =>
    have silent : ∀ table ∈ plan.outputs config output, ∀ sequence,
        table.name.flushSequence ≠ some sequence := by
      intro table member sequence
      rw [mergedTables_flushSequence member]
      simp
    intro name member sequence found
    rw [DataDirectory.mem_names] at member
    simp only [List.mem_append] at member
    rcases member with ⟨table, old | new, same⟩ | old | new
    · exact marks.named name
        (DataDirectory.mem_names.mpr (Or.inl ⟨table, old, same⟩))
        sequence found
    · rw [← same] at found
      exact absurd found (silent table (begun new) sequence)
    · exact marks.named name (DataDirectory.mem_names.mpr (Or.inr old))
        sequence found
    · rcases List.mem_map.mp (cut new) with ⟨table, whole, same⟩
      rw [← same] at found
      exact absurd found (silent table whole sequence)

theorem EngineMarked.withOutputs (marks : EngineMarked dir tree)
    (output : OutputFiles) {plan : Option CompactionPlan}
    (planned : ∀ some ∈ plan, Planned config order tree.levels some) :
    EngineMarked (dir.withOutputs config output plan) tree := by
  cases plan with
  | none => exact marks
  | some plan =>
      have files := marks.withFiles (planned plan rfl)
        (List.Subset.refl (plan.outputs config output))
        (List.nil_subset ((plan.outputs config output).map (·.name)))
      rw [List.append_nil] at files
      exact files

theorem DataDirectory.withOutputs_sequenceFile (plan : Option CompactionPlan) :
    (dir.withOutputs config output plan).sequenceFile = dir.sequenceFile := by
  cases plan <;> rfl

/-- New levels are made of old tables and of outputs. -/
theorem EngineMarked.install (marks : EngineMarked dir tree)
    {levels : Nat → List SSTable}
    (live : ∀ level, StampsBelow dir.sequenceFile (levels level)) :
    EngineMarked dir { tree with levels := levels } where
  marked := marks.marked
  live := live
  counter := marks.counter
  named := marks.named

theorem EngineMarked.compactIfNeeded (marks : EngineMarked dir tree)
    (order : List Nat) (output : OutputFiles) :
    EngineMarked
      (dir.withOutputs config output (planIfNeeded config order tree.levels))
      { tree with
        levels := F4kvsLsm.compactIfNeeded config order output
          tree.levels } := by
  have planned : ∀ plan ∈ planIfNeeded config order tree.levels,
      Planned config order tree.levels plan := fun plan found => Or.inl found
  have files := marks.withOutputs output planned
  apply files.install
  rw [DataDirectory.withOutputs_sequenceFile]
  intro level
  cases found : planIfNeeded config order tree.levels with
  | none =>
      rw [planIfNeeded, Option.map_eq_none_iff] at found
      rw [F4kvsLsm.compactIfNeeded, found]
      exact marks.live level
  | some plan =>
      rw [compactIfNeeded_of_plan output found, Function.update_apply]
      split
      · apply StampsBelow.append
        · intro table member
          exact marks.live plan.level table
            (remainingTables_sublist _ _ |>.subset member)
        · exact marks.outputs_below output (Or.inl found)
      · exact marks.live level

theorem compactAll_of_none {levels levels' : Nat → List SSTable}
    (planned : planAll config levels = none)
    (merged : compactAll config output levels = .ok levels') :
    levels' = levels := by
  rw [planAll] at planned
  split at planned
  · case isTrue idle =>
      rw [compactAll] at merged
      grind
  · exact absurd planned (by simp)

theorem EngineMarked.compactAll (marks : EngineMarked dir tree)
    (output : OutputFiles) {levels : Nat → List SSTable}
    (merged : F4kvsLsm.compactAll config output tree.levels = .ok levels) :
    EngineMarked (dir.withOutputs config output (planAll config tree.levels))
      { tree with levels := levels } := by
  have planned : ∀ plan ∈ planAll config tree.levels,
      Planned config [] tree.levels plan := fun plan found => Or.inr found
  have files := marks.withOutputs output planned
  apply files.install
  rw [DataDirectory.withOutputs_sequenceFile]
  cases found : planAll config tree.levels with
  | none =>
      rw [compactAll_of_none found merged]
      exact marks.live
  | some plan =>
      rw [compactAll_of_plan output found, Except.ok.injEq] at merged
      rw [← merged]
      have outputs := marks.outputs_below output (planned plan found)
      have remaining : ∀ level, StampsBelow dir.sequenceFile
          (concurrentTables (tree.levels level) plan.inputs) := by
        intro level table member
        exact marks.live level table
          (remainingTables_sublist _ _ |>.subset member)
      intro level
      rw [Function.update_apply]
      split
      · intro table member
        rw [sortLeveledSstables, List.mem_insertionSort] at member
        exact (outputs.append (remaining 1)) table member
      · rw [Function.update_apply]
        split
        · exact remaining 0
        · exact marks.live level

end

/-! ### Starts -/

/-- The next number is above what is loaded and above all names. -/
theorem DataDirectory.Marked.load {dir : DataDirectory} (marked : dir.Marked)
    {opened : List SSTable} (files : opened.Subperm dir.tables)
    (active : Memtable) :
    EngineMarked (dir.load opened active).1 (dir.load opened active).2 ∧
      ∀ level, StampsBelow (dir.load opened active).2.sequenceNumber
        ((dir.load opened active).2.levels level) := by
  let next :=
    max (max (maxFlushSeq dir.names) (maxEntryTs opened) + 1) dir.sequenceFile
  have mark : (dir.load opened active).1.sequenceFile = next := by
    have least : dir.sequenceFile ≤ next := le_max_right _ _
    change (if next > dir.sequenceFile then next else dir.sequenceFile) = next
    split <;> omega
  have below : ∀ level, StampsBelow next (loadLevel opened level) := by
    have covered := marked.mono fun table member => files.subset member
    have promised : highest (opened.filterMap SSTable.lastStamp) < next := by
      have scanned : maxEntryTs opened < next := by
        have above : max (maxFlushSeq dir.names) (maxEntryTs opened) + 1 ≤
            next := le_max_left _ _
        have part := le_max_right (maxFlushSeq dir.names) (maxEntryTs opened)
        omega
      exact scanned
    have all := covered.lt_next (le_max_right _ _) promised
    intro level table member
    exact all table (mem_loadLevel.mp member).1
  apply And.intro _ below
  constructor
  case marked =>
    rw [DataDirectory.Marked, mark]
    exact marked.raise (le_max_right _ _)
  case live =>
    rw [mark]
    exact below
  case counter => exact mark.le
  case named =>
    intro name member sequence found
    have listed : sequence ∈ dir.names.filterMap (·.flushSequence) :=
      List.mem_filterMap.mpr ⟨name, member, found⟩
    have scanned : sequence ≤ maxFlushSeq dir.names := le_highest listed
    have above : max (maxFlushSeq dir.names) (maxEntryTs opened) + 1 ≤
        (dir.load opened active).2.sequenceNumber := le_max_left _ _
    have part := le_max_left (maxFlushSeq dir.names) (maxEntryTs opened)
    omega

/-! ## Runs -/

section

variable {config : CompactionConfig}

theorem EngineMarked.step {before after : DataDirectory × LsmTree}
    (marks : EngineMarked before.1 before.2)
    (step : DirectoryStep config before after) :
    EngineMarked after.1 after.2 := by
  cases step with
  | write active => exact marks.of_levels rfl le_rfl
  | flush info ending => exact marks.flush info ending
  | stopCompacting order output plan written torn planned begun cut =>
      exact marks.withFiles planned begun.subset cut
  | compactIfNeeded order output => exact marks.compactIfNeeded order output
  | compactAll output merged => exact marks.compactAll output merged
  | unlink left kept =>
      constructor
      case marked => exact marks.marked.mono fun table here => left.subset here
      case live => exact marks.live
      case counter => exact marks.counter
      case named =>
        intro name member
        apply marks.named name
        rw [DataDirectory.mem_names] at member ⊢
        rcases member with ⟨table, here, same⟩ | here
        · exact Or.inl ⟨table, left.subset here, same⟩
        · exact Or.inr here

theorem DirectoryStep.sequenceNumber_le {before after : DataDirectory × LsmTree}
    (step : DirectoryStep config before after) :
    before.2.sequenceNumber ≤ after.2.sequenceNumber := by
  cases step with
  | write active => exact le_rfl
  | @flush dir tree info ending =>
      have grown : tree.sequenceNumber ≤
          LsmTree.sequenceAfterFlush dir.names tree :=
        (LsmTree.le_sequenceAfterFlush dir.names tree).le
      unfold DataDirectory.flush
      split
      · case isTrue nonempty =>
          cases ending with
          | failedWriting left =>
              exact grown.trans
                (flush_sequenceNumber dir.names info _ nonempty).ge
          | failedOpening =>
              exact grown.trans
                (flush_sequenceNumber dir.names info _ nonempty).ge
          | done =>
              exact grown.trans
                (flush_sequenceNumber dir.names info _ nonempty).ge
      · case isFalse empty => rw [LsmTree.flushMemtableInternal, if_neg empty]
  | stopCompacting order output plan written torn planned begun cut =>
      exact le_rfl
  | compactIfNeeded order output => exact le_rfl
  | compactAll output merged => exact le_rfl
  | unlink left kept => exact le_rfl

/-- In every run the directory is marked, and so is the engine. -/
def SequenceState.Marked (state : SequenceState) : Prop :=
  match state.engine with
  | none => state.dir.Marked
  | some tree => EngineMarked state.dir tree

theorem SequenceState.Marked.dir {state : SequenceState}
    (marked : state.Marked) : state.dir.Marked := by
  unfold SequenceState.Marked at marked
  split at marked
  · exact marked
  · exact marked.marked

theorem SequenceState.Marked.step {before after : SequenceState}
    (marked : before.Marked) (step : SequenceStep config before after) :
    after.Marked := by
  cases step with
  | @run dir dir' tree tree' step =>
      have marks : EngineMarked dir tree := marked
      exact marks.step step
  | crash => exact marked.dir
  | start opened active files => exact (marked.load files active).1

theorem SequenceState.marked_of_run {state : SequenceState}
    (run : Relation.ReflTransGen (SequenceStep config)
      ⟨DataDirectory.empty, none⟩ state) : state.Marked := by
  induction run with
  | refl => exact Covered.nil
  | tail _ step inductionHypothesis => exact inductionHypothesis.step step

theorem EngineMarked.steps {before after : DataDirectory × LsmTree}
    (marks : EngineMarked before.1 before.2)
    (run : Relation.ReflTransGen (DirectoryStep config) before after) :
    EngineMarked after.1 after.2 ∧
      before.2.sequenceNumber ≤ after.2.sequenceNumber := by
  induction run with
  | refl => exact ⟨marks, le_rfl⟩
  | tail _ step inductionHypothesis =>
      exact ⟨inductionHypothesis.1.step step,
        inductionHypothesis.2.trans step.sequenceNumber_le⟩

end

theorem EngineMarked.flushedTable_name {dir : DataDirectory} {tree : LsmTree}
    (marks : EngineMarked dir tree) (info : TableInfo) :
    (LsmTree.flushedTable dir.names info tree).name =
        .flush 0 tree.sequenceNumber ∧
      .flush 0 tree.sequenceNumber ∉ dir.names := by
  have free : SstableName.flush 0 tree.sequenceNumber ∉ dir.names := by
    intro taken
    have below := marks.named _ taken tree.sequenceNumber rfl
    exact absurd below (lt_irrefl _)
  apply And.intro _ free
  rw [LsmTree.flushedTable, LsmTree.freeSequence, if_neg free]

/-- After every start the counter is above all timestamps in the loaded
tables and above the number of every flushed file.  As long as that engine
runs, a flush takes a new name, and timestamps above those that were loaded
and those in the tables of the engine. -/
theorem sequence_high_water (config : CompactionConfig)
    (dir : DataDirectory)
    (run : Relation.ReflTransGen (SequenceStep config)
      ⟨DataDirectory.empty, none⟩ ⟨dir, none⟩)
    (opened : List SSTable) (files : opened.Subperm dir.tables)
    (active : Memtable) :
    (∀ level, ∀ table ∈ (dir.load opened active).2.levels level,
      ∀ entry ∈ table.entries,
        entry.timestamp < (dir.load opened active).2.sequenceNumber) ∧
    (∀ name ∈ dir.names, ∀ sequence, name.flushSequence = some sequence →
      sequence < (dir.load opened active).2.sequenceNumber) ∧
    ∀ dir' tree', Relation.ReflTransGen (DirectoryStep config)
        (dir.load opened active) (dir', tree') → ∀ info,
      (LsmTree.flushedTable dir'.names info tree').name ∉ dir'.names ∧
      ∀ entry ∈ (LsmTree.flushedTable dir'.names info tree').entries,
        ∀ level,
          (∀ table ∈ (dir.load opened active).2.levels level,
            ∀ old ∈ table.entries, old.timestamp < entry.timestamp) ∧
          ∀ table ∈ tree'.levels level,
            ∀ old ∈ table.entries, old.timestamp < entry.timestamp := by
  have marked := (SequenceState.marked_of_run run).dir
  rcases marked.load files active with ⟨marks, loaded⟩
  have stamped : ∀ {table : SSTable} {entry : SSTableEntry},
      entry ∈ table.entries → entry.timestamp ∈ table.stamps :=
    fun inTable => List.mem_map.mpr ⟨_, inTable, rfl⟩
  refine ⟨?_, ?_, ?_⟩
  · intro level table member entry inTable
    exact loaded level table member _ (stamped inTable)
  · exact marks.named
  · intro dir' tree' steps info
    rcases marks.steps steps with ⟨marks', grown⟩
    rcases marks'.flushedTable_name info with ⟨name, free⟩
    constructor
    · rw [name]
      exact free
    · intro entry written level
      have above := (LsmTree.mem_flushedTable written).2.2.1
      constructor
      · intro table member old inTable
        have below := loaded level table member _ (stamped inTable)
        exact (below.trans_le grown).trans above
      · intro table member old inTable
        have below := marks'.live level table member _ (stamped inTable)
        exact (below.trans_le marks'.counter).trans above

def firstStart : DataDirectory × LsmTree :=
  DataDirectory.empty.load [] .new

/-- A flush of one key that crashes when its file is whole and the counter is
not yet on disk. -/
def crashedFlush : DataDirectory :=
  (firstStart.1.flush smallTable (putTrue firstStart.2 "k")
    (.failedWriting .whole)).1

theorem crashedFlush_run :
    Relation.ReflTransGen (SequenceStep leveledConfig)
      ⟨DataDirectory.empty, none⟩ ⟨crashedFlush, none⟩ := by
  have started : Relation.ReflTransGen (SequenceStep leveledConfig)
      ⟨DataDirectory.empty, none⟩ ⟨firstStart.1, some firstStart.2⟩ :=
    .single (.start [] .new (List.Subperm.refl []))
  have put : DirectoryStep leveledConfig (firstStart.1, firstStart.2)
      (firstStart.1, putTrue firstStart.2 "k") := .write _
  have flushed : DirectoryStep leveledConfig
      (firstStart.1, putTrue firstStart.2 "k")
      (firstStart.1.flush smallTable (putTrue firstStart.2 "k")
        (.failedWriting .whole)) := .flush smallTable _
  exact ((started.tail (.run put)).tail (.run flushed)).tail .crash

/-- `SEQUENCE` holds 1 and the file holds timestamp 2; the next flush is
numbered from 3 on. -/
theorem crashedFlush_high_water :
    crashedFlush.sequenceFile = 1 ∧
      (∃ table ∈ crashedFlush.tables,
        table.entries.map (·.timestamp) = [2]) ∧
      (crashedFlush.load crashedFlush.tables .new).2.sequenceNumber = 3 ∧
      ∀ entry ∈ (LsmTree.flushedTable crashedFlush.names smallTable
          (crashedFlush.load crashedFlush.tables .new).2).entries,
        ∀ level, ∀ table ∈
            (crashedFlush.load crashedFlush.tables .new).2.levels level,
          ∀ old ∈ table.entries, old.timestamp < entry.timestamp := by
  refine ⟨rfl, ⟨_, List.mem_singleton_self _, rfl⟩, rfl, ?_⟩
  intro entry written level
  exact ((sequence_high_water leveledConfig crashedFlush crashedFlush_run
    crashedFlush.tables (List.Subperm.refl _) .new).2.2
      (crashedFlush.load crashedFlush.tables .new).1 _ .refl smallTable).2
    entry written level |>.2

end F4kvsLsm
