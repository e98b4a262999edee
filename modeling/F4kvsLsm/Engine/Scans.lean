import F4kvsLsm.Storage.Layers
import F4kvsLsm.Engine.History

/-!
# Scans over all memtables and tables

The value scans lay the tables, level by level and each level in the order of
its list, then the parked memtables and then the active memtable on top of
each other.  The key scans collect the keys of every layer, each layer with a
treatment of deleted keys of its own.
-/

namespace F4kvsLsm

open KeyOrder Overlay Versions

namespace LsmTree

/-! ## The scans -/

/-- The tables in the order of the loops over the levels. -/
def scanTables (levelCount : Nat) (levels : Nat → List SSTable) :
    List SSTable :=
  (List.range levelCount).flatMap levels

/-- The loops of `merge_scan_prefix_with_values` and of
`merge_scan_range_with_values`; they differ in what they ask the layers
for. -/
def mergeScan (tableLayer : SSTable →
      Except ScanFailure (List (String × Value × Bool)))
    (memtableLayer : Memtable →
      Except ScanFailure (List (String × Value × Bool)))
    (levelCount : Nat) (tree : LsmTree) :
    Except ScanFailure (List (String × Value)) := do
  let merged ← (scanTables levelCount tree.levels).foldlM
    (fun merged table => do return applyLayer merged (← tableLayer table))
    (∅ : Std.TreeMap String Value)
  let merged ← tree.immutables.foldlM
    (fun merged memtable => do
      return applyLayer merged (← memtableLayer memtable)) merged
  return (applyLayer merged (← memtableLayer tree.active)).toList

variable (faults : ReadFaults) (levelCount : Nat) (tree : LsmTree)

def scanPrefixWithValues (keyPrefix : String) :
    Except ScanFailure (List (String × Value)) :=
  mergeScan (·.scanPrefixLayer faults keyPrefix)
    (fun memtable => .ok (memtable.scanPrefixLayer keyPrefix)) levelCount tree

def scanRangeWithValues (start rangeEnd : String) :
    Except ScanFailure (List (String × Value)) :=
  mergeScan (·.scanRangeLayer faults start rangeEnd)
    (·.scanRangeLayer start rangeEnd) levelCount tree

/-- `Vec::dedup`: one of each run of equal keys stays. -/
def dedupKeys : List String → List String
  | [] => []
  | first :: rest =>
      match dedupKeys rest with
      | [] => [first]
      | second :: others =>
          if first = second then second :: others
          else first :: second :: others

def sortDedup (keys : List String) : List String :=
  dedupKeys (keys.insertionSort (· ≤ ·))

def scanPrefix (keyPrefix : String) : Except ScanFailure (List String) := do
  let memtableKeys :=
    (tree.active :: tree.immutables).flatMap (·.scanPrefix keyPrefix)
  let tableKeys ← (scanTables levelCount tree.levels).mapM
    (·.scanPrefix faults keyPrefix)
  return sortDedup (memtableKeys ++ tableKeys.flatten)

def keys : Except ScanFailure (List String) :=
  scanPrefix faults levelCount tree ""

def scanRange (start rangeEnd : String) :
    Except ScanFailure (List String) := do
  let memtableKeys ← (tree.active :: tree.immutables).mapM
    (·.scanRange start rangeEnd)
  let tableKeys ← (scanTables levelCount tree.levels).mapM
    (·.scanRange faults start rangeEnd)
  return sortDedup (memtableKeys.flatten ++ tableKeys.flatten)

/-- `scan_range_limit` asks one layer after the other and stops when it has
enough keys. -/
def collectKeys (limit : Nat) :
    List String → List (Except ScanFailure (List String)) →
      Except ScanFailure (List String)
  | found, [] => .ok found
  | found, layer :: rest => do
      let found := found ++ (← layer)
      if limit ≤ found.length then return found.take limit
      else collectKeys limit found rest

def scanRangeLimit (start rangeEnd : String) (limit : Nat) :
    Except ScanFailure (List String) :=
  collectKeys limit []
    ((tree.active :: tree.immutables).map (·.scanRange start rangeEnd) ++
      (scanTables levelCount tree.levels).map
        (·.scanRange faults start rangeEnd))

def liveEntries (entries : List (String × Value × Bool)) :
    List (String × Value) :=
  (entries.filter fun entry => !entry.2.2).map
    fun entry => (entry.1, entry.2.1)

def scanAll : Except ScanFailure (List (String × Value)) := do
  let memtableItems := (tree.active :: tree.immutables).flatMap
    fun memtable => liveEntries memtable.getAllEntries
  let tableItems ← (scanTables levelCount tree.levels).mapM
    (·.scanAll faults)
  return memtableItems ++ tableItems.flatMap liveEntries

/-! ## What the layers hold -/

/-- All layers, the topmost last. -/
def layers : List (List (String × Value × Bool)) :=
  (scanTables levelCount tree.levels).map (·.readable faults) ++
    (tree.immutables ++ [tree.active]).map (·.getAllEntries)

/-- What the topmost layer with a version of the key shows. -/
def overlaid (key : String) : Option Value :=
  (topmost (tree.layers faults levelCount) key).join

end LsmTree

def lastVersion (entries : List SSTableEntry) (key : String) :
    Option SSTableEntry :=
  (versionsOf entries key).getLast?

/-- The entries that can be read, one table after the other. -/
def readableEntries (faults : ReadFaults) (files : List SSTable) :
    List SSTableEntry :=
  files.flatMap fun table =>
    table.entries.filter fun entry => (faults.block table entry).isNone

theorem readableEntries_cons (faults : ReadFaults) (table : SSTable)
    (rest : List SSTable) :
    readableEntries faults (table :: rest) =
      (table.entries.filter fun entry =>
        (faults.block table entry).isNone) ++ readableEntries faults rest :=
  List.flatMap_cons

theorem readableEntries_none (files : List SSTable) :
    readableEntries ReadFaults.none files = allEntries files := by
  rw [readableEntries, allEntries]
  congr 1
  funext table
  exact List.filter_eq_self.mpr fun _ _ => rfl

/-! ## The loops as one overlay -/

theorem foldlM_applyLayer_eq_ok
    {α : Type} {layerOf : α → Except ScanFailure (List (String × Value × Bool))}
    {items : List α} {layer : α → List (String × Value × Bool)}
    (all : ∀ item ∈ items, layerOf item = .ok (layer item))
    (merged : Std.TreeMap String Value) :
    items.foldlM (fun merged item => do
        return applyLayer merged (← layerOf item)) merged =
      .ok ((items.map layer).foldl applyLayer merged) := by
  induction items generalizing merged with
  | nil => rfl
  | cons item rest inductionHypothesis =>
      rw [List.foldlM_cons, all item List.mem_cons_self]
      exact inductionHypothesis
        (fun other member => all other (List.mem_cons_of_mem _ member)) _

theorem foldlM_applyLayer_error
    {α : Type} {layerOf : α → Except ScanFailure (List (String × Value × Bool))}
    {items : List α} {item : α} (member : item ∈ items)
    {failure : ScanFailure} (failed : layerOf item = .error failure)
    (merged : Std.TreeMap String Value) :
    ∃ first, items.foldlM (fun merged item => do
        return applyLayer merged (← layerOf item)) merged =
      .error first := by
  induction items generalizing merged with
  | nil => exact absurd member List.not_mem_nil
  | cons head rest inductionHypothesis =>
      rw [List.foldlM_cons]
      cases here : layerOf head with
      | error first => exact ⟨first, rfl⟩
      | ok layer =>
          rcases List.mem_cons.mp member with same | behind
          · rw [← same, failed] at here
            exact absurd here (by simp)
          · exact inductionHypothesis behind _

theorem foldlM_applyLayer_origin
    {α : Type} {layerOf : α → Except ScanFailure (List (String × Value × Bool))}
    {items : List α} {first : ScanFailure}
    {merged : Std.TreeMap String Value}
    (stopped : items.foldlM (fun merged item => do
        return applyLayer merged (← layerOf item)) merged = .error first) :
    ∃ item ∈ items, layerOf item = .error first := by
  induction items generalizing merged with
  | nil => exact absurd stopped (by simp [pure, Except.pure])
  | cons head rest inductionHypothesis =>
      rw [List.foldlM_cons] at stopped
      cases here : layerOf head with
      | error failure =>
          rw [here, error_bind, error_bind] at stopped
          rw [← Except.error.inj stopped]
          exact ⟨head, List.mem_cons_self, here⟩
      | ok layer =>
          rw [here, ok_bind] at stopped
          rcases inductionHypothesis stopped with ⟨item, member, origin⟩
          exact ⟨item, List.mem_cons_of_mem _ member, origin⟩

theorem Memtable.oneVersion (m : Memtable) : OneVersion m.getAllEntries :=
  List.pairwise_map.mpr (m.ascending.imp fun less => less.ne)

theorem OneVersion.filter {layer : List (String × Value × Bool)}
    (single : OneVersion layer) (chosen : String × Value × Bool → Bool) :
    OneVersion (layer.filter chosen) :=
  List.Nodup.sublist (List.Sublist.map _ List.filter_sublist) single

theorem SSTable.WellFormed.oneVersion
    {table : SSTable} (wellFormed : table.WellFormed) (faults : ReadFaults) :
    OneVersion (table.readable faults) := by
  rw [OneVersion, SSTable.readable, SSTable.readEntries, List.map_map]
  have sorted := wellFormed.sorted.filter
    fun entry => (faults.block table entry).isNone
  exact List.pairwise_map.mpr (sorted.imp fun less => less.ne)

theorem toList_ascending (map : Std.TreeMap String Value) :
    Ascending Prod.fst map.toList := by
  apply map.ordered_keys_toList.imp
  intro first second less
  exact Memtable.lt_of_compare less

/-- A scan of layers that all answer lists what the overlay of the layers
shows of the keys that they were asked for. -/
theorem LsmTree.mergeScan_listing
    {tableLayer : SSTable → Except ScanFailure (List (String × Value × Bool))}
    {memtableLayer : Memtable →
      Except ScanFailure (List (String × Value × Bool))}
    {faults : ReadFaults} {levelCount : Nat} {tree : LsmTree}
    {wanted : String → Bool}
    (wellFormed : ∀ table ∈ scanTables levelCount tree.levels,
      table.WellFormed)
    (tables : ∀ table ∈ scanTables levelCount tree.levels,
      tableLayer table =
        .ok ((table.readable faults).filter (wanted ·.1)))
    (memtables : ∀ memtable ∈ tree.active :: tree.immutables,
      memtableLayer memtable =
        .ok (memtable.getAllEntries.filter (wanted ·.1))) :
    ∃ items, mergeScan tableLayer memtableLayer levelCount tree = .ok items ∧
      Listing (fun key => wanted key = true)
        (tree.overlaid faults levelCount) items := by
  have whole : mergeScan tableLayer memtableLayer levelCount tree =
      .ok (((tree.layers faults levelCount).map
        (List.filter (wanted ·.1))).foldl applyLayer
          (∅ : Std.TreeMap String Value)).toList := by
    rw [mergeScan, foldlM_applyLayer_eq_ok tables, ok_bind,
      foldlM_applyLayer_eq_ok fun memtable member =>
        memtables memtable (List.mem_cons_of_mem _ member), ok_bind,
      memtables tree.active List.mem_cons_self, ok_bind, layers,
      List.map_append, List.foldl_append, List.map_append, List.map_append,
      List.foldl_append, List.map_map, List.map_map]
    rfl
  have single : ∀ layer ∈ (tree.layers faults levelCount).map
      (List.filter (wanted ·.1)), OneVersion layer := by
    intro layer member
    obtain ⟨full, inLayers, rfl⟩ := List.mem_map.mp member
    apply OneVersion.filter
    rw [layers, List.mem_append, List.mem_map, List.mem_map] at inLayers
    rcases inLayers with ⟨table, inTables, rfl⟩ | ⟨memtable, -, rfl⟩
    · exact (wellFormed table inTables).oneVersion faults
    · exact memtable.oneVersion
  refine ⟨_, whole, toList_ascending _, ?_⟩
  intro key found
  rw [Std.TreeMap.mem_toList_iff_getElem?_eq_some, overlay_get single]
  cases holds : wanted key with
  | true =>
      rw [topmost_map_filter wanted _ holds, overlaid]
      simp
  | false =>
      have nothing : topmost ((tree.layers faults levelCount).map
          (List.filter (wanted ·.1))) key = none := by
        rw [topmost, ← List.map_reverse, List.findSome?_map,
          List.findSome?_eq_none_iff]
        intro layer _
        rw [Function.comp, version_filter, if_neg (by simp [holds])]
      rw [nothing]
      simp

section

variable {faults : ReadFaults} {levelCount : Nat} {tree : LsmTree}

theorem SSTable.WellFormed.scanPrefixLayer_eq {table : SSTable}
    (wellFormed : table.WellFormed) (loads : faults.file table = none ∧
      faults.index table = none) (keyPrefix : String) :
    table.scanPrefixLayer faults keyPrefix =
      .ok ((table.readable faults).filter (startsWith ·.1 keyPrefix)) := by
  rw [SSTable.scanPrefixLayer, loads.1, loads.2,
    SSTable.indexFrom_prefix_eq wellFormed.sorted,
    SSTable.readEntries_filter (startsWith · keyPrefix)]
  rfl

theorem SSTable.WellFormed.scanRangeLayer_eq {table : SSTable}
    (wellFormed : table.WellFormed) (loads : faults.file table = none ∧
      faults.index table = none) (start rangeEnd : String) :
    table.scanRangeLayer faults start rangeEnd =
      .ok ((table.readable faults).filter (inRange start rangeEnd ·.1)) := by
  rw [SSTable.scanRangeLayer, loads.1, loads.2,
    SSTable.indexFrom_range_eq wellFormed.sorted,
    SSTable.readEntries_filter (inRange start rangeEnd)]
  rfl

theorem LsmTree.scanPrefixWithValues_listing
    (wellFormed : ∀ table ∈ scanTables levelCount tree.levels,
      table.WellFormed)
    (loads : ∀ table ∈ scanTables levelCount tree.levels,
      faults.file table = none ∧ faults.index table = none)
    (keyPrefix : String) :
    ∃ items, tree.scanPrefixWithValues faults levelCount keyPrefix =
        .ok items ∧
      Listing (fun key => startsWith key keyPrefix = true)
        (tree.overlaid faults levelCount) items := by
  apply mergeScan_listing wellFormed
  · intro table member
    exact (wellFormed table member).scanPrefixLayer_eq (loads table member)
      keyPrefix
  · intro memtable _
    rw [Memtable.scanPrefixLayer_eq]

theorem LsmTree.scanRangeWithValues_listing
    (wellFormed : ∀ table ∈ scanTables levelCount tree.levels,
      table.WellFormed)
    (loads : ∀ table ∈ scanTables levelCount tree.levels,
      faults.file table = none ∧ faults.index table = none)
    {start rangeEnd : String}
    (accepted : ∀ memtable ∈ tree.active :: tree.immutables,
      ¬ (memtable.entryCount > 0 ∧ rangeReversed start rangeEnd = true)) :
    ∃ items, tree.scanRangeWithValues faults levelCount start rangeEnd =
        .ok items ∧
      Listing (fun key => inRange start rangeEnd key = true)
        (tree.overlaid faults levelCount) items := by
  apply mergeScan_listing wellFormed
  · intro table member
    exact (wellFormed table member).scanRangeLayer_eq (loads table member)
      start rangeEnd
  · intro memtable member
    rw [Memtable.scanRangeLayer_eq, if_neg (accepted memtable member)]

end

/-- A table that does not answer fails the scan, with the error of a table. -/
theorem LsmTree.mergeScan_error_table
    {tableLayer : SSTable → Except ScanFailure (List (String × Value × Bool))}
    (memtableLayer : Memtable →
      Except ScanFailure (List (String × Value × Bool)))
    {levelCount : Nat} {tree : LsmTree} {table : SSTable}
    (member : table ∈ scanTables levelCount tree.levels)
    {failure : ScanFailure} (failed : tableLayer table = .error failure) :
    ∃ first, (∃ other ∈ scanTables levelCount tree.levels,
        tableLayer other = .error first) ∧
      mergeScan tableLayer memtableLayer levelCount tree = .error first := by
  rcases foldlM_applyLayer_error member failed ∅ with ⟨first, stopped⟩
  refine ⟨first, foldlM_applyLayer_origin stopped, ?_⟩
  rw [mergeScan, stopped, error_bind]

/-- So does a memtable, after the tables have answered. -/
theorem LsmTree.mergeScan_error_memtable
    (tableLayer : SSTable →
      Except ScanFailure (List (String × Value × Bool)))
    (memtableLayer : Memtable →
      Except ScanFailure (List (String × Value × Bool)))
    {levelCount : Nat} {tree : LsmTree} {memtable : Memtable}
    (member : memtable ∈ tree.active :: tree.immutables)
    {failure : ScanFailure}
    (failed : memtableLayer memtable = .error failure) :
    ∃ first, ((∃ table ∈ scanTables levelCount tree.levels,
          tableLayer table = .error first) ∨
        ∃ other ∈ tree.active :: tree.immutables,
          memtableLayer other = .error first) ∧
      mergeScan tableLayer memtableLayer levelCount tree =
        .error first := by
  rw [mergeScan]
  cases tables : (scanTables levelCount tree.levels).foldlM
      (fun merged table => do return applyLayer merged (← tableLayer table))
      (∅ : Std.TreeMap String Value) with
  | error first =>
      exact ⟨first, Or.inl (foldlM_applyLayer_origin tables), rfl⟩
  | ok merged =>
      rw [ok_bind]
      cases parked : tree.immutables.foldlM (fun merged memtable => do
          return applyLayer merged (← memtableLayer memtable)) merged with
      | error first =>
          rcases foldlM_applyLayer_origin parked with ⟨other, inList, origin⟩
          exact ⟨first,
            Or.inr ⟨other, List.mem_cons_of_mem _ inList, origin⟩, rfl⟩
      | ok merged' =>
          rw [ok_bind]
          rcases List.mem_cons.mp member with here | inList
          · rw [here] at failed
            rw [failed]
            exact ⟨failure,
              Or.inr ⟨tree.active, List.mem_cons_self, failed⟩, rfl⟩
          · rcases foldlM_applyLayer_error inList failed merged with
              ⟨first, stopped⟩
            rw [parked] at stopped
            exact absurd stopped (by simp)

/-! ## What the topmost layer shows -/

theorem Memtable.version_getAllEntries (m : Memtable) (key : String) :
    version m.getAllEntries key = (m.data[key]?).map Value.visible := by
  cases found : m.data[key]? with
  | none =>
      apply version_eq_none_iff.mpr
      intro entry member same
      have held := (Memtable.mem_getAllEntries.mp member).1
      rw [same, found] at held
      exact absurd held (by simp)
  | some value =>
      have member : (key, value, value.isNull) ∈ m.getAllEntries :=
        Memtable.mem_getAllEntries.mpr ⟨found, rfl⟩
      rw [version]
      cases hit : m.getAllEntries.find? (fun entry => entry.1 = key) with
      | none =>
          rw [List.find?_eq_none] at hit
          exact absurd rfl (of_decide_eq_false
            (Bool.not_eq_true _ ▸ hit _ member))
      | some entry =>
          have same := List.find?_some hit
          rw [decide_eq_true_eq] at same
          have here := m.ascending.eq_of_key_eq
            (List.mem_of_find?_eq_some hit) member same
          rw [here]
          rfl

theorem topmost_memtables (memtables : List Memtable) (key : String) :
    topmost (memtables.map (·.getAllEntries)) key =
      (memtableValue memtables.reverse key).map Value.visible := by
  rw [topmost, ← List.map_reverse, List.findSome?_map, memtableValue]
  induction memtables.reverse with
  | nil => rfl
  | cons memtable rest inductionHypothesis =>
      rw [List.findSome?_cons, List.findSome?_cons, inductionHypothesis,
        Function.comp, Memtable.version_getAllEntries]
      cases memtable.data[key]? <;> rfl

theorem lastVersion_append (front back : List SSTableEntry) (key : String) :
    lastVersion (front ++ back) key =
      (lastVersion back key).or (lastVersion front key) := by
  rw [lastVersion, versionsOf, List.filter_append, List.getLast?_append]
  rfl

/-- A table has one version of a key at most, so its last one is the one. -/
theorem SSTable.WellFormed.version_readable
    {table : SSTable} (wellFormed : table.WellFormed) (faults : ReadFaults)
    (key : String) :
    version (table.readable faults) key =
      (lastVersion (table.entries.filter fun entry =>
        (faults.block table entry).isNone) key).map
          SSTableEntry.visible := by
  have sorted : Ascending SSTableEntry.key (table.entries.filter
      fun entry => (faults.block table entry).isNone) :=
    wellFormed.sorted.filter _
  rw [SSTable.readable, SSTable.readEntries]
  generalize table.entries.filter
    (fun entry => (faults.block table entry).isNone) = entries at sorted
  cases last : lastVersion entries key with
  | none =>
      rw [lastVersion, List.getLast?_eq_none_iff] at last
      apply version_eq_none_iff.mpr
      intro item member same
      obtain ⟨entry, inTable, rfl⟩ := List.mem_map.mp member
      have held := mem_versionsOf.mpr ⟨inTable, same⟩
      rw [last] at held
      exact List.not_mem_nil held
  | some entry =>
      have member := mem_versionsOf.mp (List.mem_of_getLast? last)
      rw [version]
      cases hit : (entries.map fun entry =>
          (entry.key, entry.value, entry.deleted)).find?
            (fun item => item.1 = key) with
      | none =>
          rw [List.find?_eq_none] at hit
          have miss := hit _ (List.mem_map_of_mem member.1)
          exact absurd member.2 (by simpa using miss)
      | some item =>
          obtain ⟨other, inTable, rfl⟩ :=
            List.mem_map.mp (List.mem_of_find?_eq_some hit)
          have same := List.find?_some hit
          rw [decide_eq_true_eq] at same
          rw [sorted.eq_of_key_eq inTable member.1
            (same.trans member.2.symm)]
          rfl

theorem topmost_tables {files : List SSTable}
    (wellFormed : ∀ table ∈ files, table.WellFormed) (faults : ReadFaults)
    (key : String) :
    topmost (files.map (·.readable faults)) key =
      (lastVersion (readableEntries faults files) key).map
        SSTableEntry.visible := by
  induction files with
  | nil => rfl
  | cons table rest inductionHypothesis =>
      have split : topmost ((table :: rest).map (·.readable faults)) key =
          (topmost (rest.map (·.readable faults)) key).or
            (version (table.readable faults) key) := by
        rw [← topmost_singleton]
        exact topmost_append [_] _ key
      rw [split, inductionHypothesis fun other member =>
          wellFormed other (List.mem_cons_of_mem _ member),
        (wellFormed table List.mem_cons_self).version_readable,
        readableEntries_cons, lastVersion_append]
      cases lastVersion (readableEntries faults rest) key <;> rfl

theorem LsmTree.overlaid_eq
    {levelCount : Nat} {tree : LsmTree}
    (wellFormed : ∀ table ∈ scanTables levelCount tree.levels,
      table.WellFormed) (faults : ReadFaults) (key : String) :
    tree.overlaid faults levelCount key =
      match memtableValue (tree.active :: tree.immutables.reverse) key with
      | some value => value.visible
      | none => (lastVersion (readableEntries faults
          (scanTables levelCount tree.levels)) key).bind
            SSTableEntry.visible := by
  have order : (tree.immutables ++ [tree.active]).reverse =
      tree.active :: tree.immutables.reverse := by
    rw [List.reverse_append, List.reverse_singleton, List.singleton_append]
  rw [overlaid, layers, topmost_append, topmost_memtables, order,
    topmost_tables wellFormed]
  cases memtableValue (tree.active :: tree.immutables.reverse) key with
  | some value => rfl
  | none =>
      cases lastVersion (readableEntries faults
        (scanTables levelCount tree.levels)) key <;> rfl

end F4kvsLsm
