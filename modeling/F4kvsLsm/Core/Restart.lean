import F4kvsLsm.Core.Directory
import F4kvsLsm.Lib.Corresponding

/-!
# A restart from the bytes of a directory

The files of a directory stand for tables: those that were written completely
for the list of their entries, torn ones for their names only.  Loading the
files and asking the handles is loading the lists and asking these.
-/

namespace F4kvsLsm

open ByteCodec KeyOrder TableFile Versions

/-! ## What the files stand for -/

/-- A file that a table was written to completely. -/
structure Intact (compressVec : Bytes → Except String Bytes)
    (hash : String → Nat → Nat) (name : SstableName)
    (entries : List SSTableEntry) (written : WrittenTable)
    (stored : StoredFile) : Prop where
  named : stored.fileName = name.fileName
  fits : name.Fits
  bytes : stored.bytes = written.file
  wrote : ∃ level createdAt, writeEntries compressVec hash level createdAt
    entries = .ok (some written)
  storable : ∀ entry ∈ entries, entry.Storable
  ascending : Ascending SSTableEntry.key entries
  small : indexLength entries < 2 ^ 32
  room : written.metadata.smallestKey.utf8ByteSize +
    written.metadata.largestKey.utf8ByteSize ≤ 1952
  clear : SSTableMetadata.KeysClear written.metadata.encodeKeys

/-- What a file of the directory holds. -/
inductive FileContent where
  | whole (name : SstableName) (entries : List SSTableEntry)
      (written : WrittenTable)
  | torn (name : SstableName)
  | other

namespace FileContent

def name : FileContent → Option SstableName
  | whole name _ _ => some name
  | torn name => some name
  | other => none

def table : FileContent → Option SSTable
  | whole name entries written => some (asTable name entries written)
  | torn _ => none
  | other => none

end FileContent

/-- A torn file does not open, and other files have other names. -/
def Represents (compressVec : Bytes → Except String Bytes)
    (hash : String → Nat → Nat) (stored : StoredFile) : FileContent → Prop
  | .whole name entries written =>
      Intact compressVec hash name entries written stored
  | .torn name =>
      stored.fileName = name.fileName ∧ name.Fits ∧
        (tryReadMetadata stored.bytes).toOption = none
  | .other =>
      parseSstableLevelFromFilename stored.fileName = none ∧
        parseSstableFlushSequenceFromFilename stored.fileName = none

theorem PackedIndex.Holds.flat_eq {index : PackedIndex} {records : List IndexRecord}
    (holds : index.Holds records) : index.flat = .ok ⟨records⟩ := by
  rw [PackedIndex.flat, Fallible.mapM_eq_ok_iff.mpr holds]

section

variable {compressVec decompressVec : Bytes → Except String Bytes}
  {hash : String → Nat → Nat} {stored : StoredFile}

/-! ## Opening -/

namespace Intact

variable {name : SstableName} {entries : List SSTableEntry}
  {written : WrittenTable}
  (intact : Intact compressVec hash name entries written stored)

include intact

theorem sound (isSnappy : IsSnappy compressVec decompressVec) :
    ∃ writer indexData, Sound compressVec decompressVec hash entries written
      writer indexData := by
  obtain ⟨level, createdAt, wrote⟩ := intact.wrote
  obtain ⟨writer, indexData, parts⟩ := writeEntries_consists wrote
  exact ⟨writer, indexData, parts, isSnappy, intact.storable,
    intact.ascending, intact.small, intact.bytes ▸ stored.short⟩

def opened (stored : StoredFile) (written : WrittenTable) : LoadedTable :=
  ⟨stored, written.metadata, true⟩

theorem openSync_eq : stored.openSync = .ok (opened stored written) := by
  obtain ⟨level, createdAt, wrote⟩ := intact.wrote
  obtain ⟨writer, indexData, parts⟩ := writeEntries_consists wrote
  have opens := (parts.tryReadMetadata_eq_ok_iff
    (intact.bytes ▸ stored.short) intact.room).mpr intact.clear
  rw [StoredFile.openSync, intact.bytes, opens]
  rfl

/-- The blocks that are held for a file are those of the file. -/
def CacheFits (compressVec : Bytes → Except String Bytes)
    (blockCache : Option BlockCache) (table : SstableFile) : Prop :=
  ∀ offset block raw, table.heldBlock offset blockCache = some block →
    BlockAt compressVec table.file offset.toNat raw → block = raw

theorem handle {writer : BlockWriter} {indexData : Bytes}
    (sound : Sound compressVec decompressVec hash entries written writer
      indexData) {config : LoadConfig} {fileOpen : Bool}
    (readable : config.sstable.enableResilientHandling = true ∨
      fileOpen = true) {blockCache : Option BlockCache}
    (fits : CacheFits compressVec blockCache
      ((opened stored written).handle config decompressVec fileOpen)) :
    Handle compressVec entries written blockCache
      ((opened stored written).handle config decompressVec fileOpen) where
  file := intact.bytes
  metadata := rfl
  index := by
    refine ⟨_, sound.index_holds, ?_⟩
    rw [LoadedTable.handle]
    dsimp only [opened]
    rw [intact.bytes, sound.ensureIndexLoaded]
    exact sound.index_holds.flat_eq
  ready := rfl
  compressed := rfl
  canOpen := by
    rw [SstableFile.canOpen, Bool.or_eq_true]
    exact readable.symm
  filter := fun _ none => by cases none
  held := fun offset block raw held there =>
    fits offset block raw held
      (show BlockAt compressVec stored.bytes _ raw from intact.bytes ▸ there)

end Intact

/-! ## Levels -/

/-- A table that was opened from the file of a list of entries. -/
def OpenedFrom (compressVec : Bytes → Except String Bytes)
    (hash : String → Nat → Nat) (table : LoadedTable) (list : SSTable) :
    Prop :=
  ∃ name entries written,
    Intact compressVec hash name entries written table.stored ∧
    table = Intact.opened table.stored written ∧
    list = asTable name entries written

variable {files : List StoredFile} {contents : List FileContent}
  {sequence : Option Bytes}

variable (sequence) in
theorem loadedTables_openedFrom
    (represents : List.Forall₂ (Represents compressVec hash) files contents) :
    List.Forall₂ (fun (job : Nat × LoadedTable) (list : SSTable) =>
        job.1 = list.name.level ∧ OpenedFrom compressVec hash job.2 list)
      (TableDirectory.mk files sequence).loadedTables
      (contents.filterMap FileContent.table) := by
  rw [TableDirectory.loadedTables, TableDirectory.jobs, List.filterMap_filterMap]
  refine List.rel_filterMap (fun stored content here => ?_) represents
  cases content with
  | whole name entries written =>
      have intact : Intact compressVec hash name entries written stored := here
      rw [intact.named, parseSstableLevelFromFilename_fileName intact.fits,
        Option.map_some, Option.bind_some]
      dsimp only
      rw [intact.openSync_eq]
      exact .some ⟨rfl, name, entries, written, intact, rfl, rfl⟩
  | torn name =>
      obtain ⟨named, fits, torn⟩ := here
      rw [named, parseSstableLevelFromFilename_fileName fits, Option.map_some,
        Option.bind_some]
      dsimp only
      rw [StoredFile.openSync]
      cases read : tryReadMetadata stored.bytes with
      | error failure => exact .none
      | ok opened =>
          rw [read] at torn
          cases torn
  | other =>
      rw [here.1]
      exact .none

theorem OpenedFrom.keys (isSnappy : IsSnappy compressVec decompressVec)
    {table : LoadedTable} {list : SSTable}
    (from' : OpenedFrom compressVec hash table list) :
    table.opened.metadata.smallestKey = list.smallestKey ∧
      table.opened.metadata.largestKey = list.largestKey := by
  obtain ⟨name, entries, written, intact, opened, rfl⟩ := from'
  obtain ⟨writer, indexData, sound⟩ := intact.sound isSnappy
  rw [opened, sound.smallestKey_eq, sound.largestKey_eq]
  exact ⟨rfl, rfl⟩

variable (sequence) in
theorem loadedLevel_openedFrom
    (isSnappy : IsSnappy compressVec decompressVec)
    (represents : List.Forall₂ (Represents compressVec hash) files contents)
    (level : Nat) :
    List.Forall₂ (OpenedFrom compressVec hash)
      ((TableDirectory.mk files sequence).loadedLevel level)
      (loadLevel (contents.filterMap FileContent.table) level) := by
  have jobs := loadedTables_openedFrom sequence represents
  have chosen : List.Forall₂ (OpenedFrom compressVec hash)
      (((TableDirectory.mk files sequence).loadedTables.filter
        fun job => job.1 = level).map (·.2))
      ((contents.filterMap FileContent.table).filter
        fun table => table.name.level = level) := by
    rw [List.forall₂_map_left_iff]
    refine (List.rel_filter (fun job list here => ?_) jobs).imp
      fun _ _ here => here.2
    dsimp only
    rw [here.1]
  rw [TableDirectory.loadedLevel, loadLevel]
  by_cases zero : level = 0
  · rw [if_neg (by omega), if_pos zero]
    exact chosen
  · rw [if_pos (by omega), if_neg zero]
    refine Corresponding.insertionSort (fun _ _ first _ _ second => ?_) chosen
    rw [(first.keys isSnappy).1, (first.keys isSnappy).2,
      (second.keys isSnappy).1, (second.keys isSnappy).2]

/-! ## Reading -/

theorem mayExist_handle {config : LoadConfig}
    {decompressVec : Bytes → Except String Bytes} {fileOpen : Bool}
    (table : LoadedTable) (key : String) :
    (table.handle config decompressVec fileOpen).keyMayExist key =
      decide ¬ (key < table.opened.metadata.smallestKey ∨
        table.opened.metadata.largestKey < key) := by
  rw [SstableFile.keyMayExist]
  change (if key < table.opened.metadata.smallestKey ∨
    table.opened.metadata.largestKey < key then false else true) = _
  by_cases outside : key < table.opened.metadata.smallestKey ∨
      table.opened.metadata.largestKey < key
  · rw [if_pos outside, decide_eq_false (not_not.mpr outside)]
  · rw [if_neg outside, decide_eq_true outside]

/-- A handle answers like a list of entries. -/
structure Alike (decompressVec : Bytes → Except String Bytes)
    (blockCache : Option BlockCache) (table : SstableFile) (list : SSTable) :
    Prop where
  smallestKey : table.metadata.smallestKey = list.smallestKey
  largestKey : table.metadata.largestKey = list.largestKey
  mayExist : ∀ key, table.keyMayExist key = false → list.lookup key = none
  lookupSync : ∀ key, table.lookupSync decompressVec key blockCache =
    .ok (answer (list.lookup key))
  lookupPinned : ∀ key, table.lookupPinned decompressVec key blockCache =
    .ok (answer (list.lookup key))

/-- Before a block was read nothing is held. -/
theorem OpenedFrom.readsLike (isSnappy : IsSnappy compressVec decompressVec)
    {config : LoadConfig} {fileOpen : Bool}
    (readable : config.sstable.enableResilientHandling = true ∨
      fileOpen = true) {table : LoadedTable} {list : SSTable}
    (from' : OpenedFrom compressVec hash table list) :
    ReadsLike decompressVec (table.handle config decompressVec fileOpen)
      list := by
  obtain ⟨name, entries, written, intact, opened, rfl⟩ := from'
  obtain ⟨writer, indexData, sound⟩ := intact.sound isSnappy
  have nothing : Intact.CacheFits compressVec none
      ((Intact.opened table.stored written).handle config decompressVec
        fileOpen) := fun _ _ _ held _ => by cases held
  have handle := intact.handle sound readable nothing
  rw [← opened] at handle
  exact sound.readsLike handle name rfl

theorem OpenedFrom.alike (isSnappy : IsSnappy compressVec decompressVec)
    {config : LoadConfig} {fileOpen : Bool}
    (readable : config.sstable.enableResilientHandling = true ∨
      fileOpen = true) {blockCache : Option BlockCache} {table : LoadedTable}
    {list : SSTable} (from' : OpenedFrom compressVec hash table list)
    (fits : Intact.CacheFits compressVec blockCache
      (table.handle config decompressVec fileOpen)) :
    Alike decompressVec blockCache
      (table.handle config decompressVec fileOpen) list := by
  have keys := from'.keys isSnappy
  obtain ⟨name, entries, written, intact, opened, rfl⟩ := from'
  obtain ⟨writer, indexData, sound⟩ := intact.sound isSnappy
  rw [opened] at fits
  have handle := intact.handle sound readable fits
  rw [← opened] at handle
  refine ⟨keys.1, keys.2, fun key => ?_,
    fun key => (sound.lookups_answer handle name key).1,
    fun key => (sound.lookups_answer handle name key).2⟩
  rw [mayExist_handle, keys.1, keys.2]
  exact SSTable.lookup_outside

end

section

variable {decompressVec : Bytes → Except String Bytes}
  {blockCache : Option BlockCache} {tables : List SstableFile}
  {lists : List SSTable}

theorem timestamp_lookupResult :
    SstableLookupResult.timestamp ∘ SSTableEntry.lookupResult =
      SSTableEntry.timestamp := by
  funext entry
  rw [Function.comp_apply, SSTableEntry.lookupResult]
  split <;> rfl

theorem value_lookupResult (entry : SSTableEntry) :
    entry.lookupResult.value = entry.visible := by
  rw [SSTableEntry.lookupResult, SSTableEntry.visible]
  split <;> rfl

theorem hit_answer (found : Option SSTableEntry) :
    (answer found).hit = found.map SSTableEntry.lookupResult := by
  cases found with
  | none => rfl
  | some entry =>
      rw [answer, Option.map_some, SSTableEntry.lookupResult]
      split <;> rfl

/-- The candidates are those of some handles that may have the key; the lists
of these handles know all that the level knows about the key. -/
theorem candidates_alike (related : List.Forall₂
      (Alike decompressVec blockCache) tables lists) (level : Nat)
    (key : String) :
    ∃ (asked : List SstableFile) (lists' : List SSTable),
      List.Forall₂ (Alike decompressVec blockCache) asked lists' ∧
      LoadedTables.candidates level tables key =
        asked.filter (·.keyMayExist key) ∧
      getFromLevel level lists key =
        if level = 0 then newest SSTableEntry.timestamp
          (lists'.filterMap (·.lookup key))
        else (lists'.filterMap (·.lookup key)).head? := by
  cases level with
  | zero =>
      refine ⟨tables, lists, related, rfl, ?_⟩
      rw [getFromLevel, getFromLevel0,
        filterMap_of_outside fun _ => SSTable.lookup_outside]
      rfl
  | succ level =>
      have place : BinarySearch.partitionPoint
          (fun table => decide (table.metadata.largestKey < key)) tables =
          BinarySearch.partitionPoint
            (fun list => decide (list.largestKey < key)) lists :=
        Corresponding.partitionPoint_eq (related.imp fun _ _ alike => by
          rw [alike.largestKey])
      have there := Corresponding.getElem? related
      rw [LoadedTables.candidates, if_neg (Nat.succ_ne_zero level),
        SstableFile.findForKey, place, getFromLevel, findSstableForKey]
      generalize BinarySearch.partitionPoint _ lists = i
      have here := there i
      generalize tables[i]? = found at here ⊢
      generalize lists[i]? = found' at here ⊢
      cases here with
      | none => exact ⟨[], [], .nil, rfl, rfl⟩
      | @some table list alike =>
          dsimp only
          rw [alike.smallestKey, alike.largestKey]
          by_cases within : list.smallestKey ≤ key ∧ key ≤ list.largestKey
          · refine ⟨[table], [list], .cons alike .nil, ?_, ?_⟩
            · rw [if_pos within]
              cases may : table.keyMayExist key <;>
                simp [Option.filter_some, may]
            · rw [if_pos within, if_neg (Nat.succ_ne_zero level),
                Option.bind_some, List.filterMap_cons]
              cases list.lookup key <;> rfl
          · exact ⟨[], [], .nil, by rw [if_neg within]; rfl,
              by rw [if_neg within]; rfl⟩

theorem hits_alike {asked : List SstableFile} {lists : List SSTable}
    (related : List.Forall₂ (Alike decompressVec blockCache) asked lists)
    (key : String) :
    (asked.filter (·.keyMayExist key)).filterMap
        (LoadedTables.lookupLogged decompressVec blockCache · key) =
      (lists.filterMap (·.lookup key)).map SSTableEntry.lookupResult := by
  induction related with
  | nil => rfl
  | @cons table list _ _ alike _ inductionHypothesis =>
      rw [List.filterMap_cons]
      cases may : table.keyMayExist key with
      | false =>
          rw [List.filter_cons_of_neg (by simp [may]), inductionHypothesis,
            alike.mayExist key may]
      | true =>
          rw [List.filter_cons_of_pos (by simp [may]), List.filterMap_cons,
            inductionHypothesis, LoadedTables.lookupLogged,
            alike.lookupPinned]
          dsimp only
          rw [hit_answer]
          cases list.lookup key <;> rfl

theorem answers_alike {asked : List SstableFile} {lists : List SSTable}
    (related : List.Forall₂ (Alike decompressVec blockCache) asked lists)
    (key : String) :
    ∃ answers,
      (asked.filter (·.keyMayExist key)).mapM (fun table =>
        table.lookupSync decompressVec key blockCache) = .ok answers ∧
      answers.filterMap SstableLookupResult.hit =
        (lists.filterMap (·.lookup key)).map SSTableEntry.lookupResult := by
  induction related with
  | nil => exact ⟨[], rfl, rfl⟩
  | @cons table list _ _ alike _ inductionHypothesis =>
      obtain ⟨answers, rest, hits⟩ := inductionHypothesis
      rw [List.filterMap_cons]
      cases may : table.keyMayExist key with
      | false =>
          rw [List.filter_cons_of_neg (by simp [may]),
            alike.mayExist key may]
          exact ⟨answers, rest, hits⟩
      | true =>
          refine ⟨answer (list.lookup key) :: answers, ?_, ?_⟩
          · rw [List.filter_cons_of_pos (by simp [may]), List.mapM_cons,
              alike.lookupSync, rest]
            rfl
          · rw [List.filterMap_cons, hit_answer, hits]
            cases list.lookup key <;> rfl

theorem chosen_lookupResult (level : Nat) (hits : List SSTableEntry) :
    (if level = 0 then newest SstableLookupResult.timestamp
        (hits.map SSTableEntry.lookupResult)
      else (hits.map SSTableEntry.lookupResult).head?) =
      (if level = 0 then newest SSTableEntry.timestamp hits
        else hits.head?).map SSTableEntry.lookupResult := by
  split
  · rw [newest_map, timestamp_lookupResult]
  · exact List.head?_map

/-- Both reads of a level find what the lists say. -/
theorem getFromLevel_alike (related : List.Forall₂
      (Alike decompressVec blockCache) tables lists) (level : Nat)
    (key : String) :
    LoadedTables.getFromLevel decompressVec blockCache level tables key =
        (getFromLevel level lists key).map SSTableEntry.lookupResult ∧
      LoadedTables.getFromLevelSync decompressVec blockCache level tables
          key =
        .ok ((getFromLevel level lists key).map
          SSTableEntry.lookupResult) := by
  obtain ⟨asked, lists', alike, candidates, found⟩ :=
    candidates_alike related level key
  constructor
  · rw [LoadedTables.getFromLevel, candidates, hits_alike alike, found]
    exact chosen_lookupResult level _
  · obtain ⟨answers, all, hits⟩ := answers_alike alike key
    rw [LoadedTables.getFromLevelSync, candidates, all, found,
      ← chosen_lookupResult, ← hits]
    rfl

/-- The levels are asked in turn. -/
theorem getFromSstables_alike {loaded : LoadedTables}
    {levels : Nat → List SSTable}
    (related : ∀ level, List.Forall₂ (Alike decompressVec blockCache)
      (loaded.levels level) (levels level)) (levelCount : Nat)
    (key : String) :
    loaded.getFromSstables decompressVec blockCache levelCount key =
        getFromSstables levelCount levels key ∧
      loaded.getFromSstablesSync decompressVec blockCache key
          (List.range levelCount) =
        .ok (getFromSstables levelCount levels key) := by
  constructor
  · rw [LoadedTables.getFromSstables, getFromSstables]
    have same := @List.map_findSome? _ _ _
      (fun level => getFromLevel level (levels level) key)
      SSTableEntry.lookupResult (List.range levelCount)
    simp only [Function.comp_def] at same
    simp only [(getFromLevel_alike (related _) _ key).1]
    rw [← same, Option.bind_map]
    congr 1
    funext entry
    exact value_lookupResult entry
  · rw [getFromSstables]
    generalize List.range levelCount = order
    induction order with
    | nil => rfl
    | cons level rest inductionHypothesis =>
        rw [LoadedTables.getFromSstablesSync,
          (getFromLevel_alike (related level) level key).2,
          List.findSome?_cons]
        cases found : getFromLevel level (levels level) key with
        | none => exact inductionHypothesis
        | some entry =>
            exact congrArg Except.ok (value_lookupResult entry)

end

section

variable {compressVec decompressVec : Bytes → Except String Bytes}
  {hash : String → Nat → Nat} {files : List StoredFile}
  {contents : List FileContent} {sequence : Option Bytes}

/-! ## Sequence numbers -/

theorem maxFlushSeq_represents
    (represents : List.Forall₂ (Represents compressVec hash) files contents) :
    (TableDirectory.mk files sequence).maxFlushSeq =
      maxFlushSeq (contents.filterMap FileContent.name) := by
  rw [TableDirectory.maxFlushSeq, maxFlushSeq, HighWater.highest]
  congr 1
  induction represents with
  | nil => rfl
  | @cons stored content _ _ here _ inductionHypothesis =>
      rw [List.filterMap_cons, inductionHypothesis]
      cases content with
      | whole name entries written =>
          have intact : Intact compressVec hash name entries written stored :=
            here
          rw [intact.named,
            parseSstableFlushSequenceFromFilename_fileName intact.fits]
          rfl
      | torn name =>
          rw [here.1, parseSstableFlushSequenceFromFilename_fileName here.2.1]
          rfl
      | other =>
          rw [here.2]
          rfl

/-- The greatest of some numbers that are cut at a bound is the greatest of
them, cut at the bound. -/
theorem highest_map_min (bound : Nat) (numbers : List Nat) :
    HighWater.highest (numbers.map (min · bound)) =
      min (HighWater.highest numbers) bound := by
  induction numbers with
  | nil => exact (Nat.zero_min bound).symm
  | cons number rest inductionHypothesis =>
      change max (min number bound)
          (HighWater.highest (rest.map (min · bound))) =
        min (max number (HighWater.highest rest)) bound
      rw [inductionHypothesis]
      exact (min_max_distrib_right number _ bound).symm

theorem maxEntryTs_represents
    (isSnappy : IsSnappy compressVec decompressVec)
    (represents : List.Forall₂ (Represents compressVec hash) files contents) :
    (TableDirectory.mk files sequence).maxEntryTs =
      min (maxEntryTs (contents.filterMap FileContent.table))
        (u64Limit - 1) := by
  have jobs := loadedTables_openedFrom sequence represents
  rw [TableDirectory.maxEntryTs, maxEntryTs]
  rw [← HighWater.highest, ← highest_map_min]
  congr 1
  generalize (TableDirectory.mk files sequence).loadedTables = tables at jobs
  generalize contents.filterMap FileContent.table = lists at jobs
  induction jobs with
  | nil => rfl
  | @cons job list _ _ here _ inductionHypothesis =>
      obtain ⟨level, table⟩ := job
      have from' : OpenedFrom compressVec hash table list := here.2
      obtain ⟨name, entries, written, intact, opened, rfl⟩ := from'
      obtain ⟨writer, indexData, sound⟩ := intact.sound isSnappy
      have few := sound.entries_length
      have count : table.opened.metadata.entryCount.toNat =
          entries.length := by
        rw [opened]
        change written.metadata.entryCount.toNat = _
        rw [sound.entryCount, toNat_ofNat_of_lt (by omega)]
      rw [List.filterMap_cons, List.filterMap_cons, inductionHypothesis]
      dsimp only [asTable]
      rw [intact.named, count,
        parseSstableFlushSequenceFromFilename_fileName intact.fits]
      cases name.flushSequence <;> rfl

theorem nextSequence_represents
    (isSnappy : IsSnappy compressVec decompressVec)
    (represents : List.Forall₂ (Represents compressVec hash) files contents) :
    (TableDirectory.mk files sequence).nextSequence =
      min (loadExistingSstables (contents.filterMap FileContent.name)
        (contents.filterMap FileContent.table)
        ((TableDirectory.mk files sequence).loadSequenceFile.getD 0)).2
        (u64Limit - 1) := by
  have small : (TableDirectory.mk files sequence).loadSequenceFile.getD 0 <
      u64Limit := TableDirectory.loadSequenceFile_lt
  rw [TableDirectory.nextSequence, maxFlushSeq_represents represents,
    maxEntryTs_represents isSnappy represents, saturatingAdd,
    loadExistingSstables]
  omega

end

end F4kvsLsm
