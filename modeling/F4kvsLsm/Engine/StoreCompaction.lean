import F4kvsLsm.Engine.StoreSteps

/-!
# A manual compaction of the files

The inputs are read from their files, the merged entries are cut and written
to new ones, and the inputs are unlinked.  The files then stand for the tree
after its compaction.
-/

namespace F4kvsLsm

open ByteCodec KeyOrder TableFile Versions

/-! ## The runs of the merged entries -/

/-- A run does not exceed the target, unless it is a single entry. -/
theorem cutEntries_small {size : SSTableEntry → Nat} {targetSize : Nat}
    {current : List SSTableEntry} {currentSize : Nat}
    {entries : List SSTableEntry}
    (counted : currentSize = (current.map size).sum)
    (small : currentSize ≤ targetSize ∨ current.length ≤ 1)
    {run : List SSTableEntry}
    (member : run ∈ cutEntries size targetSize current currentSize entries) :
    (run.map size).sum ≤ targetSize ∨ run.length ≤ 1 := by
  induction entries generalizing current currentSize with
  | nil =>
      rw [cutEntries] at member
      split at member
      · cases member
      · rw [List.mem_singleton.mp member, ← counted]
        exact small
  | cons entry rest inductionHypothesis =>
      rw [cutEntries] at member
      split at member
      · rcases List.mem_cons.mp member with rfl | behind
        · rw [← counted]
          exact small
        · refine inductionHypothesis ?_ (Or.inr le_rfl) behind
          rw [List.map_singleton, List.sum_singleton]
      · case isFalse full =>
          refine inductionHypothesis ?_ ?_ member
          · rw [List.map_append, List.sum_append, List.map_singleton,
              List.sum_singleton, counted]
          · rw [not_and_or, not_lt, not_not] at full
            rcases full with fits | none
            · exact Or.inl fits
            · rw [none]
              exact Or.inr le_rfl

/-- An entry takes less room in the index than it counts for in a run. -/
theorem indexLength_le_estimated (jsonLen : SerdeJsonValue → Nat)
    (run : List SSTableEntry) :
    indexLength run ≤ (run.map (estimatedSstableBytes jsonLen)).sum := by
  refine List.sum_le_sum fun entry _ => ?_
  rw [estimatedSstableBytes]
  omega

theorem SSTableEntry.Storable.key_le {entry : SSTableEntry}
    (storable : entry.Storable) :
    entry.key.utf8ByteSize ≤ maxFramedEntry := by
  have small := storable.small
  simp only [SSTableEntry.encode, encodeStr, encodeByteVec,
    List.length_append, strBytes_length] at small
  omega

/-- The runs of merged entries come back from the tables they are written
to. -/
theorem keepable_of_run {jsonLen : SerdeJsonValue → Nat} {targetSize : Nat}
    (target : targetSize < 2 ^ 32) {entries : List SSTableEntry}
    (kept : ∀ entry ∈ entries, entry.Storable ∧ CleanKey entry.key)
    (sorted : Ascending SSTableEntry.key entries) {run : List SSTableEntry}
    (member : run ∈ cutEntries (estimatedSstableBytes jsonLen)
      (max targetSize 1) [] 0 entries) : Keepable run := by
  have part : run.Sublist entries := by
    have whole := (cutEntries_spec (estimatedSstableBytes jsonLen)
      (max targetSize 1) [] 0 entries).1
    have inside := List.sublist_flatten_of_mem member
    rw [whole] at inside
    exact inside
  have few := cutEntries_small rfl (Or.inl (Nat.zero_le _)) member
  refine ⟨fun entry inRun => (kept entry (part.subset inRun)).1,
    List.Pairwise.sublist part sorted, ?_,
    fun entry inRun => (kept entry (part.subset inRun)).2⟩
  rcases few with fits | single
  · have bound := indexLength_le_estimated jsonLen run
    omega
  · match run, single, part with
    | [], _, _ => exact Nat.two_pow_pos 32
    | [entry], _, part =>
        have key := (kept entry (part.subset List.mem_cons_self)).1.key_le
        rw [maxFramedEntry] at key
        rw [indexLength, List.map_singleton, List.sum_singleton]
        omega

/-! ## The outputs -/

section

variable {config : StoreConfig} {store after : Store} {tree : LsmTree}
  {contents : List FileContent} {readings : OutputReadings}

/-- The outputs from an index on have names that are new and differ. -/
structure UnusedNames (readings : OutputReadings) (level index : Nat)
    (dir : TableDirectory) : Prop where
  distinct : ∀ i j, readings.name level i = readings.name level j → i = j
  unused : ∀ i, index ≤ i → ∀ stored ∈ dir.files,
    stored.fileName ≠ (readings.name level i).fileName

/-- A created file takes a name away. -/
theorem UnusedNames.create {level index : Nat} {dir : TableDirectory}
    (names : UnusedNames readings level index dir) {stored : StoredFile}
    (named : stored.fileName = (readings.name level index).fileName) :
    (dir.create stored).files = dir.files ++ [stored] ∧
      UnusedNames readings level (index + 1) (dir.create stored) := by
  have files := @TableDirectory.create_files dir stored
    (by rw [named]; exact names.unused index le_rfl)
  refine ⟨files, names.distinct, fun i behind other member same => ?_⟩
  rw [files] at member
  rcases List.mem_append.mp member with old | new
  · exact names.unused i (by omega) other old same
  · rw [List.mem_singleton.mp new, named] at same
    have apart := names.distinct _ _ (fileName_compaction_inj same)
    omega

def outputLists (readings : OutputReadings) (level : Nat)
    (info : Nat → TableInfo) (index : Nat)
    (runs : List (List SSTableEntry)) : List SSTable :=
  runs.mapIdx fun i run =>
    { name := readings.name level (index + i)
      entries := run
      fileSize := (info (index + i)).fileSize
      createdAt := (info (index + i)).createdAt
      blockCompressed := true }

/-- What the outputs of a compaction leave in the directory. -/
structure Created (config : StoreConfig) (readings : OutputReadings)
    (level index : Nat) (runs : List (List SSTableEntry))
    (dir dir' : TableDirectory) (tables : List LiveTable)
    (info : Nat → TableInfo) (news : List StoredFile)
    (contents : List FileContent) : Prop where
  live : List.Forall₂ (LiveOf config) tables
    (outputLists readings level info index runs)
  files : dir'.files = dir.files ++ news
  sequence : dir'.sequence = dir.sequence
  represents : List.Forall₂ (Represents config.compressVec config.hash) news
    contents
  lists : contents.filterMap FileContent.table =
    outputLists readings level info index runs
  names : news.map (·.fileName) =
    runs.mapIdx fun i _ => (readings.name level (index + i)).fileName
  noFlush : ∀ name ∈ contents.filterMap FileContent.name,
    name.flushSequence = none

/-- The outputs are created one after the other. -/
theorem createNewSstables_created
    (isSnappy : IsSnappy config.compressVec config.decompressVec)
    (resilient : config.load.sstable.enableResilientHandling = true)
    {level : Nat} (fits : level < u64Limit)
    {runs : List (List SSTableEntry)}
    (keepable : ∀ run ∈ runs, Keepable run) {index : Nat}
    {dir dir' : TableDirectory}
    (names : UnusedNames readings level index dir) {tables : List LiveTable}
    (created : Store.createNewSstables config level readings index runs dir =
      .ok (tables, dir')) :
    ∃ info news contents, Created config readings level index runs dir dir'
      tables info news contents := by
  induction runs generalizing index dir tables with
  | nil =>
      cases created
      exact ⟨fun _ => ⟨1, 0, Nat.one_pos⟩, [], [],
        ⟨.nil, (List.append_nil _).symm, rfl, .nil, rfl, rfl, by simp⟩⟩
  | cons run rest inductionHypothesis =>
      obtain ⟨⟨table, stored⟩, first, others⟩ :=
        Fallible.bind_eq_ok_iff.mp created
      obtain ⟨⟨tables', dirAfter⟩, behind, made⟩ :=
        Fallible.bind_eq_ok_iff.mp others
      cases made
      have nameFits : (readings.name level index).Fits := fits
      obtain ⟨written, on⟩ := createSstable_liveOn isSnappy resilient nameFits
        (keepable run List.mem_cons_self) first
      obtain ⟨files, names'⟩ := names.create on.intact.named
      obtain ⟨info, news, contents, parts⟩ := inductionHypothesis
        (fun run member => keepable run (List.mem_cons_of_mem _ member))
        names' behind
      have live : LiveOf config table
          (asTable (readings.name level index) run written) :=
        ⟨_, _, _, _, on, rfl⟩
      let here : TableInfo := ⟨_, written.metadata.createdAt.toNat,
        (live.wellFormed isSnappy).sized⟩
      have lists : outputLists readings level
          (Function.update info index here) index (run :: rest) =
          asTable (readings.name level index) run written ::
            outputLists readings level info (index + 1) rest := by
        rw [outputLists, List.mapIdx_cons, Nat.add_zero,
          Function.update_self]
        refine congrArg₂ List.cons rfl ?_
        rw [outputLists]
        refine List.ext_getElem (by simp) fun i bound bound' => ?_
        rw [List.getElem_mapIdx, List.getElem_mapIdx,
          Function.update_of_ne (by omega),
          show index + (i + 1) = index + 1 + i by omega]
      refine ⟨Function.update info index here, stored :: news,
        .whole (readings.name level index) run written :: contents, ?_⟩
      constructor
      case live =>
        rw [lists]
        exact .cons live parts.live
      case files => rw [parts.files, files, List.append_assoc]; rfl
      case sequence => exact parts.sequence
      case represents => exact .cons on.intact parts.represents
      case lists =>
        rw [lists, ← parts.lists]
        rfl
      case names =>
        rw [List.map_cons, parts.names, on.intact.named, List.mapIdx_cons,
          Nat.add_zero]
        refine congrArg₂ List.cons rfl ?_
        refine List.ext_getElem (by simp) fun i bound bound' => ?_
        rw [List.getElem_mapIdx, List.getElem_mapIdx,
          show index + (i + 1) = index + 1 + i by omega]
      case noFlush =>
        intro name member
        rcases List.mem_cons.mp member with rfl | behind
        · rfl
        · exact parts.noFlush name behind

/-! ## The inputs -/

/-- The tables of some lists are all read, and merged like the lists. -/
theorem Store.mergeSstablesSafe_eq
    (isSnappy : IsSnappy config.compressVec config.decompressVec)
    {tables : List LiveTable} {lists : List SSTable}
    (live : List.Forall₂ (LiveOf config) tables lists) :
    Store.mergeSstablesSafe config tables =
      .ok (F4kvsLsm.mergeSstablesSafe lists) := by
  have entries : tables.flatMap (·.readEntriesSafe config) =
      allEntries lists := by
    induction live with
    | nil => rfl
    | cons here _ inductionHypothesis =>
        rw [List.flatMap_cons, allEntries, List.flatMap_cons,
          here.readEntriesSafe_eq isSnappy, inductionHypothesis]
        rfl
  have readable : tables.filter (·.unreadable config) = [] := by
    refine List.filter_eq_nil_iff.mpr fun table member => ?_
    obtain ⟨list, -, here⟩ := Corresponding.exists_right live member
    rw [here.not_unreadable isSnappy]
    exact Bool.false_ne_true
  rw [Store.mergeSstablesSafe, readable, entries]
  rfl

theorem filter_validForCompact
    (isSnappy : IsSnappy config.compressVec config.decompressVec)
    {tables : List LiveTable} {lists : List SSTable}
    (live : List.Forall₂ (LiveOf config) tables lists) :
    tables.filter (·.validForCompact) = tables := by
  refine List.filter_eq_self.mpr fun table member => ?_
  obtain ⟨list, -, here⟩ := Corresponding.exists_right live member
  exact here.validForCompact isSnappy

theorem no_rewrite {tables : List LiveTable} {lists : List SSTable}
    (live : List.Forall₂ (LiveOf config) tables lists) :
    (tables.any (!·.handle.blockCompressed)) = false ∧
      (lists.any (!·.blockCompressed)) = false := by
  rw [List.any_eq_false, List.any_eq_false]
  constructor
  · intro table member
    obtain ⟨list, -, here⟩ := Corresponding.exists_right live member
    rw [here.ready.2.2]
    exact Bool.false_ne_true
  · intro list member
    obtain ⟨table, -, -, -, -, -, -, rfl⟩ :=
      Corresponding.exists_left live member
    exact Bool.false_ne_true

/-- Nothing of a level stays when the whole level was merged. -/
theorem concurrent_eq_nil {files inputs : List LiveTable}
    (all : ∀ table ∈ files, table ∈ inputs) :
    LiveTable.concurrent files inputs = [] := by
  refine List.filter_eq_nil_iff.mpr fun table member => ?_
  rw [decide_eq_true_eq, not_and_or, not_not]
  exact Or.inl (List.mem_map_of_mem (all table member))

theorem merged_entries (lists : List SSTable) :
    (∀ entry ∈ deduplicateEntries (F4kvsLsm.mergeSstablesSafe lists),
      entry ∈ allEntries lists) ∧
    Ascending SSTableEntry.key
      (deduplicateEntries (F4kvsLsm.mergeSstablesSafe lists)) := by
  refine ⟨fun entry member => ?_, deduplicateEntries_sorted _⟩
  have sorted := (dedupLoop_sublist _ _).subset member
  exact mem_sortEntries.mp (mem_sortEntries.mp sorted)

/-! ## Compacting -/

/-- The names and the file data of the outputs. -/
def OutputReadings.files (readings : OutputReadings)
    (info : Nat → TableInfo) : OutputFiles where
  timestamp := fun index => timestampSecs (readings.timestamp index)
  uniq := fun index => timestampNanos (readings.uniq index)
  info

theorem createNewSstables_eq_outputLists (level : Nat)
    (info : Nat → TableInfo) (compaction : CompactionConfig)
    (entries : List SSTableEntry) :
    createNewSstables compaction (readings.files info) level entries =
      outputLists readings level info 0
        (cutEntries (estimatedSstableBytes compaction.jsonLen)
          (max compaction.targetSize 1) [] 0 entries) := by
  rw [createNewSstables, outputLists]
  simp only [Nat.zero_add]
  rfl

theorem outputLists_names_nodup {level : Nat}
    (distinct : ∀ i j, readings.name level i = readings.name level j → i = j)
    (info : Nat → TableInfo) (index : Nat)
    (runs : List (List SSTableEntry)) :
    ((outputLists readings level info index runs).map (·.name)).Nodup := by
  rw [outputLists, List.Nodup, List.pairwise_iff_getElem]
  intro i j iBound jBound less same
  rw [List.getElem_map, List.getElem_map, List.getElem_mapIdx,
    List.getElem_mapIdx] at same
  have equal := distinct _ _ same
  omega

theorem Holds.exists_file (holds : Holds config store tree contents)
    {list : SSTable} (member : list ∈ tree.levels 0 ++ tree.levels 1) :
    ∃ stored ∈ store.dir.files, ∃ entries written,
      Intact config.compressVec config.hash list.name entries written
        stored := by
  have listed := holds.tables.symm.subset member
  obtain ⟨content, inDir, opened⟩ := List.mem_filterMap.mp listed
  obtain ⟨stored, there, represents⟩ :=
    Corresponding.exists_left holds.files inDir
  cases content with
  | whole name entries written =>
      cases opened
      exact ⟨stored, there, entries, written, represents⟩
  | torn name => cases opened
  | other => cases opened

theorem Holds.stays_iff (holds : Holds config store tree contents)
    {stored : StoredFile} (member : stored ∈ store.dir.files)
    {content : FileContent} (listed : content ∈ contents)
    (represents : Represents config.compressVec config.hash stored content) :
    stored.fileName ∉
        (tree.levels 0 ++ tree.levels 1).map (·.name.fileName) ↔
      content.table = none := by
  constructor
  · intro stays
    cases content with
    | whole name entries written =>
        have intact : Intact config.compressVec config.hash name entries
          written stored := represents
        refine absurd (List.mem_map.mpr ⟨asTable name entries written, ?_,
          intact.named.symm⟩) stays
        exact holds.tables.subset
          (List.mem_filterMap.mpr ⟨_, listed, rfl⟩)
    | torn name => rfl
    | other => rfl
  · intro none taken
    obtain ⟨list, inTree, same⟩ := List.mem_map.mp taken
    obtain ⟨other, inDir, entries, written, intact⟩ :=
      holds.exists_file inTree
    have equal : stored = other :=
      List.inj_on_of_nodup_map holds.names member inDir
        (same.symm.trans intact.named.symm)
    subst equal
    cases content with
    | whole name entries' written' => cases none
    | torn name =>
        have opens := intact.openSync_eq
        have torn := represents.2.2
        rw [StoredFile.openSync] at opens
        cases read : tryReadMetadata stored.bytes with
        | error failure =>
            rw [read] at opens
            cases opens
        | ok opened =>
            rw [read] at torn
            cases torn
    | other =>
        have level := represents.1
        rw [intact.named,
          parseSstableLevelFromFilename_fileName intact.fits] at level
        cases level

/-- The runs that a compaction of levels 0 and 1 writes. -/
def mergedRuns (config : StoreConfig) (tree : LsmTree) :
    List (List SSTableEntry) :=
  cutEntries (estimatedSstableBytes config.compaction.jsonLen)
    (max config.compaction.targetSize 1) [] 0
    (deduplicateEntries (F4kvsLsm.mergeSstablesSafe
      (tree.levels 0 ++ tree.levels 1)))

/-- A compaction that succeeds changes nothing, or it writes the merged runs
and unlinks all tables of levels 0 and 1; the tree does the same. -/
theorem Holds.compactTables_cases
    (isSnappy : IsSnappy config.compressVec config.decompressVec)
    (holds : Holds config store tree contents)
    (invariant : tree.Invariant config.compaction)
    (compacted : store.compactTables config readings = .ok after) :
    (after = store ∧ ∀ output, F4kvsLsm.compactAll config.compaction output
      tree.levels = .ok tree.levels) ∨
    ∃ outputs dir,
      Store.createNewSstables config 1 readings 0 (mergedRuns config tree)
        store.dir = .ok (outputs, dir) ∧
      after =
        { store with
          levels := Function.update (Function.update store.levels 0 []) 1
            (LiveTable.sortLeveled outputs)
          dir := dir.unlink
            ((store.levels 0 ++ store.levels 1).map (·.fileName)) } ∧
      ∀ output, F4kvsLsm.compactAll config.compaction output tree.levels =
        .ok (Function.update (Function.update tree.levels 0 []) 1
          (sortLeveledSstables (mergedTables config.compaction output 1
            (tree.levels 0 ++ tree.levels 1)))) := by
  have live := List.rel_append (holds.levels 0) (holds.levels 1)
  obtain ⟨plain, plain'⟩ := no_rewrite live
  have lengths := (holds.levels 0).length_eq
  have lengths' := live.length_eq
  have valid : ∀ level, (store.levels level).filter (·.validForCompact) =
      store.levels level :=
    fun level => filter_validForCompact isSnappy (holds.levels level)
  rw [Store.compactTables] at compacted
  by_cases few : config.compaction.levelCount < 2
  · rw [if_pos few] at compacted
    cases compacted
  rw [if_neg few] at compacted
  dsimp only at compacted
  rw [valid, valid, plain] at compacted
  have whole : ∀ output, F4kvsLsm.compactAll config.compaction output
      tree.levels =
        if (tree.levels 0).length < 2 ∧ ¬ false = true then .ok tree.levels
        else if (tree.levels 0 ++ tree.levels 1).isEmpty then .ok tree.levels
        else .ok (Function.update (Function.update tree.levels 0
          (concurrentTables (tree.levels 0)
            (tree.levels 0 ++ tree.levels 1))) 1
          (sortLeveledSstables (mergedTables config.compaction output 1
            (tree.levels 0 ++ tree.levels 1) ++
              concurrentTables (tree.levels 1)
                (tree.levels 0 ++ tree.levels 1)))) := by
    intro output
    rw [F4kvsLsm.compactAll, if_neg few]
    dsimp only
    rw [validSstables_eq invariant.level0,
      validSstables_eq invariant.level1.wellFormed, plain']
  by_cases small : (store.levels 0).length < 2 ∧ ¬ false = true
  · rw [if_pos small] at compacted
    refine Or.inl ⟨(Except.ok.inj compacted).symm, fun output => ?_⟩
    rw [whole, if_pos (lengths ▸ small)]
  rw [if_neg small] at compacted
  have same : (store.levels 0 ++ store.levels 1).isEmpty =
      (tree.levels 0 ++ tree.levels 1).isEmpty := by
    rw [Bool.eq_iff_iff, List.isEmpty_iff_length_eq_zero,
      List.isEmpty_iff_length_eq_zero]
    exact lengths' ▸ Iff.rfl
  by_cases none : (store.levels 0 ++ store.levels 1).isEmpty
  · rw [if_pos none] at compacted
    refine Or.inl ⟨(Except.ok.inj compacted).symm, fun output => ?_⟩
    rw [whole, if_neg (lengths ▸ small), if_pos (same ▸ none)]
  rw [if_neg none] at compacted
  obtain ⟨⟨outputs, dir⟩, created, made⟩ :=
    Fallible.bind_eq_ok_iff.mp compacted
  rw [Store.compactLevelSstables, Store.mergeSstablesSafe_eq isSnappy live]
    at created
  dsimp only at made
  rw [concurrent_eq_nil fun _ => List.mem_append_left _,
    concurrent_eq_nil fun _ => List.mem_append_right _, List.append_nil]
    at made
  refine Or.inr ⟨outputs, dir, created, (Except.ok.inj made).symm,
    fun output => ?_⟩
  rw [whole, if_neg (lengths ▸ small), if_neg (same ▸ none), concurrentTables,
    concurrentTables,
    remainingTables_eq_nil fun _ => List.mem_append_left _,
    remainingTables_eq_nil fun _ => List.mem_append_right _, List.append_nil]

/-- The files after a compaction: the inputs are gone, the outputs are
there. -/
theorem Holds.compacted_files (holds : Holds config store tree contents)
    {runs : List (List SSTableEntry)} {dir : TableDirectory}
    {outputs : List LiveTable} {info : Nat → TableInfo}
    {news : List StoredFile} {contents' : List FileContent}
    (names : UnusedNames readings 1 0 store.dir)
    (parts : Created config readings 1 0 runs store.dir dir outputs info news
      contents') :
    ∃ stay : List StoredFile, stay.Sublist store.dir.files ∧
      (dir.unlink ((store.levels 0 ++ store.levels 1).map
        (·.fileName))).files = stay ++ news ∧
      List.Forall₂ (Represents config.compressVec config.hash) stay
        (contents.filter (·.table.isNone)) := by
  have live := List.rel_append (holds.levels 0) (holds.levels 1)
  have inputs : (store.levels 0 ++ store.levels 1).map (·.fileName) =
      (tree.levels 0 ++ tree.levels 1).map (·.name.fileName) := by
    refine List.forall₂_eq_eq_eq ▸ ?_
    rw [List.forall₂_map_left_iff, List.forall₂_map_right_iff]
    exact live.imp fun _ _ here => here.fileName_eq
  have gone : news.filter (fun stored => decide (stored.fileName ∉
      (tree.levels 0 ++ tree.levels 1).map (·.name.fileName))) = news := by
    refine List.filter_eq_self.mpr fun stored member => decide_eq_true ?_
    intro taken
    obtain ⟨list, inTree, same⟩ := List.mem_map.mp taken
    obtain ⟨other, inDir, entries, written, intact⟩ :=
      holds.exists_file inTree
    have named := List.mem_map_of_mem (f := (·.fileName)) member
    rw [parts.names, List.mem_mapIdx] at named
    obtain ⟨i, -, name⟩ := named
    exact names.unused (0 + i) (Nat.zero_le _) other inDir
      (intact.named.trans (same.trans name.symm))
  refine ⟨store.dir.files.filter (fun stored => decide (stored.fileName ∉
    (tree.levels 0 ++ tree.levels 1).map (·.name.fileName))),
    List.filter_sublist, ?_, ?_⟩
  · rw [TableDirectory.unlink, inputs, parts.files]
    dsimp only
    rw [List.filter_append, gone]
  · refine (List.rel_filter (fun stored content here => ?_)
      (Corresponding.with_members holds.files)).imp fun _ _ here => here.2.2
    dsimp only
    rw [decide_eq_true_eq, Option.isNone_iff_eq_none]
    exact holds.stays_iff here.1 here.2.1 here.2.2

/-- The tree whose level 1 are the outputs is what the files stand for. -/
theorem Holds.install (holds : Holds config store tree contents)
    {runs : List (List SSTableEntry)}
    (kept : ∀ run ∈ runs, Keepable run) {dir : TableDirectory}
    {outputs : List LiveTable} {info : Nat → TableInfo}
    {news : List StoredFile} {contents' : List FileContent}
    (isSnappy : IsSnappy config.compressVec config.decompressVec)
    (names : UnusedNames readings 1 0 store.dir)
    (parts : Created config readings 1 0 runs store.dir dir outputs info news
      contents') :
    Holds config
      { store with
        levels := Function.update (Function.update store.levels 0 []) 1
          (LiveTable.sortLeveled outputs)
        dir := dir.unlink
          ((store.levels 0 ++ store.levels 1).map (·.fileName)) }
      { tree with
        levels := Function.update (Function.update tree.levels 0 []) 1
          (sortLeveledSstables (outputLists readings 1 info 0 runs)) }
      (contents.filter (·.table.isNone) ++ contents') := by
  obtain ⟨stay, part, files, represents⟩ :=
    holds.compacted_files names parts
  have sorted := sortLeveledSstables_perm (outputLists readings 1 info 0 runs)
  have noTable : (contents.filter (·.table.isNone)).filterMap
      FileContent.table = [] := by
    refine List.filterMap_eq_nil_iff.mpr fun content member => ?_
    exact Option.isNone_iff_eq_none.mp (List.mem_filter.mp member).2
  have level0 : Function.update (Function.update tree.levels 0 []) 1
      (sortLeveledSstables (outputLists readings 1 info 0 runs)) 0 = [] := by
    rw [Function.update_of_ne Nat.zero_ne_one, Function.update_self]
  have level1 : Function.update (Function.update tree.levels 0 []) 1
      (sortLeveledSstables (outputLists readings 1 info 0 runs)) 1 =
        sortLeveledSstables (outputLists readings 1 info 0 runs) :=
    Function.update_self ..
  have fromRun : ∀ table ∈ sortLeveledSstables
      (outputLists readings 1 info 0 runs),
      table.name.flushSequence = none ∧ table.entries ∈ runs := by
    intro table member
    have listed := sorted.subset member
    rw [outputLists, List.mem_mapIdx] at listed
    obtain ⟨i, bound, rfl⟩ := listed
    exact ⟨rfl, List.getElem_mem bound⟩
  constructor
  case active => exact holds.active
  case noneParked => exact holds.noneParked
  case noneParked' => exact holds.noneParked'
  case levels =>
    intro level
    match level with
    | 0 =>
        dsimp only
        rw [level0, Function.update_of_ne Nat.zero_ne_one,
          Function.update_self]
        exact .nil
    | 1 =>
        dsimp only
        rw [level1, Function.update_self]
        refine Corresponding.insertionSort (fun _ _ first _ _ second => ?_)
          parts.live
        rw [(first.boundaryKeys_eq isSnappy).1,
          (first.boundaryKeys_eq isSnappy).2,
          (second.boundaryKeys_eq isSnappy).1,
          (second.boundaryKeys_eq isSnappy).2]
    | level + 2 =>
        dsimp only
        rw [Function.update_of_ne (by omega), Function.update_of_ne (by omega),
          Function.update_of_ne (by omega), Function.update_of_ne (by omega)]
        exact holds.levels (level + 2)
  case sequence => exact holds.sequence
  case below => exact holds.below
  case mark =>
    have same : (dir.unlink ((store.levels 0 ++ store.levels 1).map
        (·.fileName))).sequence = store.dir.sequence := parts.sequence
    have mark := holds.mark
    rw [TableDirectory.loadSequenceFile] at mark ⊢
    rw [same]
    exact mark
  case files =>
    dsimp only
    rw [files]
    exact List.rel_append represents parts.represents
  case names =>
    dsimp only
    rw [files, List.map_append, List.nodup_append]
    refine ⟨(part.map _).nodup holds.names, ?_, ?_⟩
    · rw [parts.names, List.Nodup, List.pairwise_iff_getElem]
      intro i j iBound jBound less same
      rw [List.getElem_mapIdx, List.getElem_mapIdx] at same
      have equal := names.distinct _ _ (fileName_compaction_inj same)
      omega
    · intro name member other there same
      obtain ⟨stored, inDir, rfl⟩ := List.mem_map.mp member
      rw [parts.names, List.mem_mapIdx] at there
      obtain ⟨i, -, rfl⟩ := there
      exact names.unused (0 + i) (Nat.zero_le _) stored (part.subset inDir)
        same
  case tables =>
    dsimp only
    rw [List.filterMap_append, noTable, parts.lists, level0, level1]
    exact sorted.symm
  case flushNames =>
    intro name member sequence number
    rw [List.filterMap_append, List.mem_append] at member
    rcases member with old | new
    · obtain ⟨content, listed, named⟩ := List.mem_filterMap.mp old
      exact holds.flushNames name (List.mem_filterMap.mpr
        ⟨content, List.mem_of_mem_filter listed, named⟩) sequence number
    · rw [parts.noFlush name new] at number
      cases number
  case flushStamps =>
    intro table member sequence number
    dsimp only at member
    rw [level0, level1, List.nil_append] at member
    rw [(fromRun table member).1] at number
    cases number
  case writable => exact holds.writable
  case kept =>
    intro entry member
    dsimp only at member
    rw [level0, level1, List.nil_append] at member
    obtain ⟨table, there, inTable⟩ := mem_allEntries.mp member
    have keepable := kept table.entries (fromRun table there).2
    exact ⟨keepable.storable entry inTable, keepable.clean entry inTable⟩

theorem Holds.compactTables
    (isSnappy : IsSnappy config.compressVec config.decompressVec)
    (resilient : config.load.sstable.enableResilientHandling = true)
    (target : config.compaction.targetSize < 2 ^ 32)
    (holds : Holds config store tree contents)
    (invariant : tree.Invariant config.compaction)
    (names : UnusedNames readings 1 0 store.dir)
    (compacted : store.compactTables config readings = .ok after) :
    ∃ output levels contents',
      F4kvsLsm.compactAll config.compaction output tree.levels = .ok levels ∧
      FreshOutputs config.compaction output tree.levels ∧
      Holds config after { tree with levels := levels } contents' := by
  have fresh : ∀ info, FreshOutputs config.compaction (readings.files info)
      tree.levels := by
    intro info levels done
    rcases invariant.compactAll_cases done with same | ⟨-, merged⟩
    · rw [same]
      exact invariant.names1
    · rw [merged, Function.update_self, mergedTables,
        createNewSstables_eq_outputLists]
      exact outputLists_names_nodup names.distinct info 0 _
  rcases holds.compactTables_cases isSnappy invariant compacted with
    ⟨rfl, same⟩ | ⟨outputs, dir, created, rfl, whole⟩
  · exact ⟨readings.files fun _ => ⟨1, 0, Nat.one_pos⟩, tree.levels, contents,
      same _, fresh _, holds⟩
  · have keepable : ∀ run ∈ mergedRuns config tree, Keepable run := by
      obtain ⟨sub, ascending⟩ :=
        merged_entries (tree.levels 0 ++ tree.levels 1)
      exact fun run member => keepable_of_run target
        (fun entry merged => holds.kept entry (sub entry merged)) ascending
        member
    obtain ⟨info, news, contents', parts⟩ := createNewSstables_created
      isSnappy resilient (by decide) keepable names created
    refine ⟨readings.files info, _, contents.filter (·.table.isNone) ++
      contents', whole _, fresh info, ?_⟩
    rw [mergedTables, createNewSstables_eq_outputLists]
    exact holds.install keepable isSnappy names parts

end

end F4kvsLsm
