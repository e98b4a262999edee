import F4kvsLsm.Core.Tree
import F4kvsLsm.Error

/-!
# The compaction manager

One compaction merges some tables of a level, keeps the newest version of each
key, drops tombstones, and cuts the rest into new tables of the same level.
`compactAll` merges levels 0 and 1 into level 1.

Groups of tables are collected in a hash map, so the order in which its
buckets are visited is an argument.  Adaptive scheduling is off and every
table can be read.
-/

namespace F4kvsLsm

/-- Compaction strategies. -/
inductive CompactionStrategy where
  | leveled
  | sizeTiered
  | timeWindowed
  | hybrid
  deriving DecidableEq, Repr

/-- The parts of the configuration that decide on a compaction;
`levelThreshold` is the rounded product of the target size and a power of the
size multiplier. -/
structure CompactionConfig where
  strategy : CompactionStrategy
  levelCount : Nat
  maxSstablesPerLevel : Nat
  levelThreshold : Nat → Nat
  targetSize : Nat
  jsonLen : SerdeJsonValue → Nat

/-- Name and file data of the tables that one compaction creates, in order. -/
structure OutputFiles where
  timestamp : Nat → Nat
  uniq : Nat → Nat
  info : Nat → TableInfo

/-! ## When and what to compact -/

def sizeBucket (table : SSTable) : Nat :=
  table.fileSize / (1024 * 1024) * (1024 * 1024)

def timeWindow (table : SSTable) : Nat :=
  table.createdAt / 3600

/-- The last of the largest groups in the order of the buckets. -/
def largestGroup (bucket : SSTable → Nat) (order : List Nat)
    (files : List SSTable) : List SSTable :=
  order.foldl
    (fun best key =>
      let group := files.filter (fun table => bucket table = key)
      if best.length ≤ group.length then group else best)
    []

def shouldCompactLeveled (config : CompactionConfig) (level : Nat)
    (files : List SSTable) : Bool :=
  if level = 0 then files.length > config.maxSstablesPerLevel
  else (files.map (·.fileSize)).sum > config.levelThreshold level

def shouldCompactSizeTiered (order : List Nat) (files : List SSTable) :
    Bool :=
  if files.length < 4 then false
  else (largestGroup sizeBucket order files).length ≥ 4

def shouldCompactTimeWindowed (files : List SSTable) : Bool :=
  if files.length < 2 then false
  else files.any fun table =>
    (files.filter (fun other => timeWindow other = timeWindow table)).length > 1

def shouldCompactLevel (config : CompactionConfig) (order : List Nat)
    (level : Nat) (files : List SSTable) : Bool :=
  if files.isEmpty then false
  else
    match config.strategy with
    | .leveled => shouldCompactLeveled config level files
    | .sizeTiered => shouldCompactSizeTiered order files
    | .timeWindowed => shouldCompactTimeWindowed files
    | .hybrid =>
        if level = 0 then shouldCompactLeveled config level files
        else shouldCompactSizeTiered order files

/-- A group of at least `least` tables of one bucket, or nothing. -/
def selectGroup (bucket : SSTable → Nat) (least : Nat) (order : List Nat)
    (files : List SSTable) : List SSTable :=
  let group := largestGroup bucket order files
  if least ≤ group.length then group else []

def selectSizeTieredSstables (order : List Nat) (files : List SSTable) :
    List SSTable :=
  if files.length < 4 then [] else selectGroup sizeBucket 4 order files

def selectTimeWindowedSstables (order : List Nat) (files : List SSTable) :
    List SSTable :=
  selectGroup timeWindow 2 order files

/-- The leveled strategy takes the whole level. -/
def selectSstablesForCompaction (config : CompactionConfig)
    (order : List Nat) (level : Nat) (files : List SSTable) : List SSTable :=
  match config.strategy with
  | .leveled => files
  | .sizeTiered => selectSizeTieredSstables order files
  | .timeWindowed => selectTimeWindowedSstables order files
  | .hybrid =>
      if level = 0 then files else selectSizeTieredSstables order files

/-! ## Merging -/

/-- By key, then newest first. -/
def EntryOrder (first second : SSTableEntry) : Prop :=
  first.key < second.key ∨
    first.key = second.key ∧ second.timestamp ≤ first.timestamp

instance : DecidableRel EntryOrder := fun _ _ =>
  inferInstanceAs (Decidable (_ ∨ _))

def sortEntries (entries : List SSTableEntry) : List SSTableEntry :=
  entries.insertionSort EntryOrder

/-- `merge_sstables_safe` where all records can be read. -/
def mergeSstablesSafe (files : List SSTable) : List SSTableEntry :=
  sortEntries (allEntries files)

/-- Keep the first entry of every key that has not been seen, unless it is
deleted. -/
def dedupLoop (seenKeys : List String) :
    List SSTableEntry → List SSTableEntry
  | [] => []
  | entry :: rest =>
      if entry.key ∈ seenKeys then dedupLoop seenKeys rest
      else if entry.deleted then dedupLoop (entry.key :: seenKeys) rest
      else entry :: dedupLoop (entry.key :: seenKeys) rest

def deduplicateEntries (entries : List SSTableEntry) : List SSTableEntry :=
  dedupLoop [] (sortEntries entries)

def estimatedSstableBytes (jsonLen : SerdeJsonValue → Nat)
    (entry : SSTableEntry) : Nat :=
  entry.key.utf8ByteSize * 2 + entry.value.serializedSize jsonLen + 64

/-- Cut entries into runs that do not exceed the target size, unless a single
entry does. -/
def cutEntries (size : SSTableEntry → Nat) (targetSize : Nat) :
    List SSTableEntry → Nat → List SSTableEntry → List (List SSTableEntry)
  | current, _, [] => if current.isEmpty then [] else [current]
  | current, currentSize, entry :: rest =>
      if currentSize + size entry > targetSize ∧ current ≠ [] then
        current :: cutEntries size targetSize [entry] (size entry) rest
      else
        cutEntries size targetSize (current ++ [entry])
          (currentSize + size entry) rest

def createNewSstables (config : CompactionConfig) (output : OutputFiles)
    (level : Nat) (entries : List SSTableEntry) : List SSTable :=
  (cutEntries (estimatedSstableBytes config.jsonLen)
    (max config.targetSize 1) [] 0 entries).mapIdx fun index run =>
      { name := .compaction level (output.timestamp index) (output.uniq index)
        entries := run
        fileSize := (output.info index).fileSize
        createdAt := (output.info index).createdAt
        blockCompressed := true }

def mergedTables (config : CompactionConfig) (output : OutputFiles)
    (level : Nat) (files : List SSTable) : List SSTable :=
  createNewSstables config output level
    (deduplicateEntries (mergeSstablesSafe files))

/-! ## Compactions -/

/-- The tables of a level whose files are not merged. -/
def remainingTables (files group : List SSTable) : List SSTable :=
  files.filter fun table =>
    !(group.any fun compacted => compacted.name = table.name)

/-- `compact_level`: the tables that stay, then the merged ones. -/
def compactLevel (config : CompactionConfig) (order : List Nat)
    (output : OutputFiles) (level : Nat) (files : List SSTable) :
    List SSTable :=
  let group := selectSstablesForCompaction config order level files
  if group.isEmpty then files
  else remainingTables files group ++ mergedTables config output level group

def levelToCompact (config : CompactionConfig) (order : List Nat)
    (levels : Nat → List SSTable) : Option Nat :=
  (List.range config.levelCount).find? fun level =>
    shouldCompactLevel config order level (levels level)

/-- `compact_if_needed` where all records can be read. -/
def compactIfNeeded (config : CompactionConfig) (order : List Nat)
    (output : OutputFiles) (levels : Nat → List SSTable) :
    Nat → List SSTable :=
  match levelToCompact config order levels with
  | some level =>
      Function.update levels level
        (compactLevel config order output level (levels level))
  | none => levels

/-- Tables that can be merged. -/
def validSstablesForCompact (files : List SSTable) : List SSTable :=
  files.filter fun table => 0 < table.fileSize ∧ table.entries ≠ []

/-- Order by the largest key, then by the smallest. -/
def sortLeveledSstables (files : List SSTable) : List SSTable :=
  files.insertionSort fun first second =>
    first.largestKey < second.largestKey ∨
      first.largestKey = second.largestKey ∧
        first.smallestKey ≤ second.smallestKey

/-- The tables of a level that were not among the inputs of a compaction. -/
def concurrentTables (files inputs : List SSTable) : List SSTable :=
  remainingTables files inputs

/-- `compact_all`: merge levels 0 and 1 into level 1, when level 0 has at
least two tables or some table has to be rewritten. -/
def compactAll (config : CompactionConfig) (output : OutputFiles)
    (levels : Nat → List SSTable) :
    Except LsmError (Nat → List SSTable) :=
  if config.levelCount < 2 then
    .error (.internal "compact_all needs at least 2 levels for L0→L1")
  else
    let validL0 := validSstablesForCompact (levels 0)
    let validL1 := validSstablesForCompact (levels 1)
    let needsRewrite := (validL0 ++ validL1).any (!·.blockCompressed)
    if validL0.length < 2 ∧ ¬ needsRewrite then .ok levels
    else
      let inputs := validL0 ++ validL1
      if inputs.isEmpty then .ok levels
      else
        .ok (Function.update
          (Function.update levels 0 (concurrentTables (levels 0) inputs)) 1
          (sortLeveledSstables (mergedTables config output 1 inputs ++
            concurrentTables (levels 1) inputs)))

end F4kvsLsm
