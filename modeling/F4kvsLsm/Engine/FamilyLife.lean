import F4kvsLsm.Engine.FamilyRanges

/-!
# Creating and dropping families

A family is a name in a map, and its id is the size that the map has when it
is created.  Dropping it takes the name out of the map and leaves its keys
where they are.  So what a family shows after it has been created anew is what
the layers held behind its name when it was dropped, and ids repeat.
-/

namespace F4kvsLsm

open Fallible KeyOrder Overlay Versions

/-! ## What holds of all entries -/

namespace LsmTree.Everywhere

variable {config : CompactionConfig} {limits : WriteLimits}
variable {environment : WriteEnvironment}
variable {holds holds' : String → Value → Prop} {tree : LsmTree}

theorem mono
    (everywhere : tree.Everywhere holds)
    (weaker : ∀ key value, holds key value → holds' key value) :
    tree.Everywhere holds' where
  memtables := fun memtable member key value found =>
    weaker key value (everywhere.memtables memtable member key value found)
  tables := fun level table member entry inTable =>
    weaker entry.key entry.value
      (everywhere.tables level table member entry inTable)

/-- A merge makes no entries. -/
theorem mem_of_mem_mergedTables
    {output : OutputFiles} {level : Nat} {files : List SSTable}
    {table : SSTable} (member : table ∈ mergedTables config output level files)
    {entry : SSTableEntry} (inTable : entry ∈ table.entries) :
    ∃ source ∈ files, entry ∈ source.entries := by
  have merged : entry ∈ allEntries (mergedTables config output level files) :=
    List.mem_flatMap.mpr ⟨table, member, inTable⟩
  rw [mergedTables, allEntries_createNewSstables, deduplicateEntries]
    at merged
  have sorted := (dedupLoop_sublist _ _).subset merged
  rw [mem_sortEntries, mergeSstablesSafe, mem_sortEntries] at sorted
  exact List.mem_flatMap.mp sorted

theorem compactIfNeeded
    (everywhere : tree.Everywhere holds) (order : List Nat)
    (output : OutputFiles) :
    ({ tree with
        levels := F4kvsLsm.compactIfNeeded config order output tree.levels } :
      LsmTree).Everywhere holds := by
  constructor
  · exact everywhere.memtables
  · intro level table member entry inTable
    cases chosen : levelToCompact config order tree.levels with
    | none =>
        simp only [F4kvsLsm.compactIfNeeded, chosen] at member
        exact everywhere.tables level table member entry inTable
    | some compacted =>
        simp only [compactIfNeeded_of_some chosen] at member
        by_cases here : level = compacted
        · subst here
          rw [Function.update_self, compactLevel] at member
          split at member
          · exact everywhere.tables level table member entry inTable
          · rcases List.mem_append.mp member with stays | merged
            · exact everywhere.tables level table
                (List.mem_filter.mp stays).1 entry inTable
            · rcases mem_of_mem_mergedTables merged inTable with
                ⟨source, selected, inSource⟩
              exact everywhere.tables level source
                ((selected_sublist _ _ _ _).subset selected) entry inSource
        · rw [Function.update_of_ne here] at member
          exact everywhere.tables level table member entry inTable

/-- A write that goes into the memtable, and the flush and the compaction
that it may set off. -/
theorem writeThrough
    (everywhere : tree.Everywhere holds) {write : Memtable → Memtable}
    (written : ∀ key value, (write tree.active).data[key]? = some value →
      tree.active.data[key]? = some value ∨ holds key value) :
    (tree.writeThrough config limits environment write).1.Everywhere
      holds := by
  rw [LsmTree.writeThrough]
  cases environment.logFailure with
  | some failure => exact everywhere
  | none =>
      have after := everywhere.write written
      simp only [checkMemtableFlush]
      by_cases full : limits.memtableMaxSize ≤ (write tree.active).size
      · rw [if_pos full]
        have flushed := after.flush environment.existing environment.info
          environment.outcome
        generalize LsmTree.flushMemtableInternal environment.existing
          environment.info environment.outcome
          { tree with active := write tree.active } = result at flushed
        rcases result with ⟨flushedTree, success⟩
        cases success with
        | false => exact flushed
        | true =>
            cases limits.bulkImport || !environment.compacts with
            | true => exact flushed
            | false => exact flushed.compactIfNeeded _ _
      · rw [if_neg full]
        exact after

/-! ## What reads return -/

variable {faults : ReadFaults} {levelCount : Nat}

theorem memtablePrefix
    (everywhere : tree.Everywhere holds) {memtable : Memtable}
    (member : memtable ∈ tree.active :: tree.immutables)
    (keyPrefix : String) :
    ∀ entry ∈ memtable.scanPrefixLayer keyPrefix,
      holds entry.1 entry.2.1 := by
  intro entry inLayer
  rw [Memtable.scanPrefixLayer_eq] at inLayer
  exact everywhere.memtables memtable member entry.1 entry.2.1
    (Memtable.mem_getAllEntries.mp (List.mem_filter.mp inLayer).1).1

theorem memtableRange
    (everywhere : tree.Everywhere holds) {memtable : Memtable}
    (member : memtable ∈ tree.active :: tree.immutables)
    {start rangeEnd : String} {layer : List (String × Value × Bool)}
    (answered : memtable.scanRangeLayer start rangeEnd = .ok layer) :
    ∀ entry ∈ layer, holds entry.1 entry.2.1 := by
  intro entry inLayer
  rw [Memtable.scanRangeLayer_eq] at answered
  split at answered
  · exact absurd answered (by simp)
  · rw [← Except.ok.inj answered] at inLayer
    exact everywhere.memtables memtable member entry.1 entry.2.1
      (Memtable.mem_getAllEntries.mp (List.mem_filter.mp inLayer).1).1

theorem readEntries
    (everywhere : tree.Everywhere holds) {table : SSTable}
    (member : table ∈ scanTables levelCount tree.levels)
    {entries : List SSTableEntry} (part : ∀ entry ∈ entries,
      entry ∈ table.entries) :
    ∀ entry ∈ table.readEntries faults entries, holds entry.1 entry.2.1 := by
  intro entry inLayer
  rcases List.mem_map.mp inLayer with ⟨source, chosen, rfl⟩
  rcases List.mem_flatMap.mp member with ⟨level, -, inLevel⟩
  exact everywhere.tables level table inLevel source
    (part source (List.mem_filter.mp chosen).1)

theorem mem_of_mem_indexFrom
    {table : SSTable} {start : String} {keeps : SSTableEntry → Bool} :
    ∀ entry ∈ (table.indexFrom start).takeWhile keeps,
      entry ∈ table.entries := by
  intro entry member
  exact List.mem_of_mem_drop ((List.takeWhile_sublist keeps).subset member)

/-- What both files give is what is returned. -/
theorem eq_of_guards
    {file index : Option LsmError} {result answer :
      List (String × Value × Bool)}
    (answered : (do
        guardFault file
        guardFault index
        return result) = Except.ok answer) :
    result = answer := by
  cases file with
  | some failure => exact absurd answered (by simp [guardFault])
  | none =>
      cases index with
      | some failure => exact absurd answered (by simp [guardFault])
      | none => exact Except.ok.inj answered

theorem tablePrefix
    (everywhere : tree.Everywhere holds) {table : SSTable}
    (member : table ∈ scanTables levelCount tree.levels)
    {keyPrefix : String} {layer : List (String × Value × Bool)}
    (answered : table.scanPrefixLayer faults keyPrefix = .ok layer) :
    ∀ entry ∈ layer, holds entry.1 entry.2.1 := by
  rw [← eq_of_guards answered]
  exact everywhere.readEntries member mem_of_mem_indexFrom

theorem tableRange
    (everywhere : tree.Everywhere holds) {table : SSTable}
    (member : table ∈ scanTables levelCount tree.levels)
    {start rangeEnd : String} {layer : List (String × Value × Bool)}
    (answered : table.scanRangeLayer faults start rangeEnd = .ok layer) :
    ∀ entry ∈ layer, holds entry.1 entry.2.1 := by
  rw [← eq_of_guards answered]
  exact everywhere.readEntries member mem_of_mem_indexFrom

theorem liveKeys
    {layer : List (String × Value × Bool)}
    (all : ∀ entry ∈ layer, holds entry.1 entry.2.1) :
    ∀ key ∈ Memtable.liveKeys layer, ∃ value, holds key value := by
  intro key member
  rcases mem_liveKeys.mp member with ⟨value, inLayer⟩
  exact ⟨value, all _ inLayer⟩

theorem foldlM_applyLayer_forall
    {α : Type} {layerOf : α → Except ScanFailure (List (String × Value × Bool))}
    {items : List α}
    (all : ∀ item ∈ items, ∀ layer, layerOf item = .ok layer →
      ∀ entry ∈ layer, holds entry.1 entry.2.1)
    {merged result : Std.TreeMap String Value}
    (below : ∀ key value, merged[key]? = some value → holds key value)
    (ran : items.foldlM (fun merged item => do
        return applyLayer merged (← layerOf item)) merged = .ok result) :
    ∀ key value, result[key]? = some value → holds key value := by
  induction items generalizing merged with
  | nil =>
      rw [← Except.ok.inj ran]
      exact below
  | cons item rest inductionHypothesis =>
      rw [List.foldlM_cons] at ran
      cases answered : layerOf item with
      | error failure =>
          rw [answered] at ran
          exact absurd ran (by simp)
      | ok layer =>
          rw [answered] at ran
          apply inductionHypothesis
            (fun other member => all other (List.mem_cons_of_mem _ member))
            _ ran
          exact applyLayer_forall
            (all item List.mem_cons_self layer answered) below

/-- The items of a scan with values come from the layers. -/
theorem mergeScan
    {tableLayer : SSTable → Except ScanFailure (List (String × Value × Bool))}
    {memtableLayer : Memtable →
      Except ScanFailure (List (String × Value × Bool))}
    (tables : ∀ table ∈ scanTables levelCount tree.levels, ∀ layer,
      tableLayer table = .ok layer →
        ∀ entry ∈ layer, holds entry.1 entry.2.1)
    (memtables : ∀ memtable ∈ tree.active :: tree.immutables, ∀ layer,
      memtableLayer memtable = .ok layer →
        ∀ entry ∈ layer, holds entry.1 entry.2.1)
    {items : List (String × Value)}
    (scanned : LsmTree.mergeScan tableLayer memtableLayer levelCount tree =
      .ok items) :
    ∀ item ∈ items, holds item.1 item.2 := by
  have nothing : ∀ key value,
      (∅ : Std.TreeMap String Value)[key]? = some value →
        holds key value := by
    intro key value found
    exact absurd found (by simp)
  rw [LsmTree.mergeScan] at scanned
  cases first : (scanTables levelCount tree.levels).foldlM
      (fun merged table => do return applyLayer merged (← tableLayer table))
      (∅ : Std.TreeMap String Value) with
  | error failure =>
      rw [first] at scanned
      exact absurd scanned (by simp)
  | ok merged =>
      rw [first, ok_bind] at scanned
      cases second : tree.immutables.foldlM (fun merged memtable => do
          return applyLayer merged (← memtableLayer memtable)) merged with
      | error failure =>
          rw [second] at scanned
          exact absurd scanned (by simp)
      | ok merged' =>
          rw [second, ok_bind] at scanned
          cases third : memtableLayer tree.active with
          | error failure =>
              rw [third] at scanned
              exact absurd scanned (by simp)
          | ok layer =>
              rw [third, ok_bind] at scanned
              have shown := applyLayer_forall
                (memtables tree.active List.mem_cons_self layer third)
                (foldlM_applyLayer_forall
                  (fun memtable member => memtables memtable
                    (List.mem_cons_of_mem _ member))
                  (foldlM_applyLayer_forall tables nothing first) second)
              intro item member
              rw [← Except.ok.inj scanned] at member
              exact shown item.1 item.2
                (Std.TreeMap.mem_toList_iff_getElem?_eq_some.mp member)

theorem scanPrefixWithValues
    (everywhere : tree.Everywhere holds) {keyPrefix : String}
    {items : List (String × Value)}
    (scanned : tree.scanPrefixWithValues faults levelCount keyPrefix =
      .ok items) :
    ∀ item ∈ items, holds item.1 item.2 := by
  apply @mergeScan holds tree levelCount _ _ _ _ items scanned
  · intro table member layer answered
    exact everywhere.tablePrefix member answered
  · intro memtable member layer answered
    rw [← Except.ok.inj answered]
    exact everywhere.memtablePrefix member keyPrefix

theorem scanRangeWithValues
    (everywhere : tree.Everywhere holds) {start rangeEnd : String}
    {items : List (String × Value)}
    (scanned : tree.scanRangeWithValues faults levelCount start rangeEnd =
      .ok items) :
    ∀ item ∈ items, holds item.1 item.2 := by
  apply @mergeScan holds tree levelCount _ _ _ _ items scanned
  · intro table member layer answered
    exact everywhere.tableRange member answered
  · intro memtable member layer answered
    exact everywhere.memtableRange member answered

theorem mem_sortDedup {keys : List String} {key : String} :
    key ∈ sortDedup keys ↔ key ∈ keys :=
  (@sortDedup_listsKeys keys (· ∈ keys) fun _ => Iff.rfl).2 key

theorem scanPrefix
    (everywhere : tree.Everywhere holds) {keyPrefix : String}
    {keys : List String}
    (scanned : tree.scanPrefix faults levelCount keyPrefix = .ok keys) :
    ∀ key ∈ keys, ∃ value, holds key value := by
  rcases exists_of_bind_ok scanned with ⟨tableKeys, tables, done⟩
  intro key member
  rw [← Except.ok.inj done, mem_sortDedup, List.mem_append,
    List.mem_flatMap, List.mem_flatten] at member
  rcases member with ⟨memtable, inTree, listed⟩ | ⟨part, inParts, listed⟩
  · exact liveKeys (everywhere.memtablePrefix inTree keyPrefix) key listed
  · rcases mapM_result tables part inParts with ⟨table, inTree, answered⟩
    rcases exists_of_bind_ok answered with ⟨_, -, done⟩
    rw [← Except.ok.inj done] at listed
    rcases List.mem_map.mp listed with ⟨entry, inIndex, rfl⟩
    rcases List.mem_flatMap.mp inTree with ⟨level, -, inLevel⟩
    exact ⟨entry.value, everywhere.tables level table inLevel entry
      (mem_of_mem_indexFrom entry inIndex)⟩

theorem memtableScanRange
    (everywhere : tree.Everywhere holds) {memtable : Memtable}
    (member : memtable ∈ tree.active :: tree.immutables)
    {start rangeEnd : String} {keys : List String}
    (answered : memtable.scanRange start rangeEnd = .ok keys) :
    ∀ key ∈ keys, ∃ value, holds key value := by
  rw [Memtable.scanRange] at answered
  cases read : memtable.scanRangeLayer start rangeEnd with
  | error failure =>
      rw [read] at answered
      exact absurd answered (by simp [Except.map])
  | ok layer =>
      rw [read] at answered
      rw [← Except.ok.inj answered]
      exact liveKeys (everywhere.memtableRange member read)

theorem tableScanRange
    (everywhere : tree.Everywhere holds) {table : SSTable}
    (member : table ∈ scanTables levelCount tree.levels)
    {start rangeEnd : String} {keys : List String}
    (answered : table.scanRange faults start rangeEnd = .ok keys) :
    ∀ key ∈ keys, ∃ value, holds key value := by
  rcases exists_of_bind_ok answered with ⟨layer, read, done⟩
  rw [← Except.ok.inj done]
  exact liveKeys (everywhere.tableRange member read)

theorem scanRange
    (everywhere : tree.Everywhere holds) {start rangeEnd : String}
    {keys : List String}
    (scanned : tree.scanRange faults levelCount start rangeEnd = .ok keys) :
    ∀ key ∈ keys, ∃ value, holds key value := by
  rcases exists_of_bind_ok scanned with ⟨memtableKeys, memtables, rest⟩
  rcases exists_of_bind_ok rest with ⟨tableKeys, tables, done⟩
  intro key member
  rw [← Except.ok.inj done, mem_sortDedup, List.mem_append,
    List.mem_flatten, List.mem_flatten] at member
  rcases member with ⟨part, inParts, listed⟩ | ⟨part, inParts, listed⟩
  · rcases mapM_result memtables part inParts with
      ⟨memtable, inTree, answered⟩
    exact everywhere.memtableScanRange inTree answered key listed
  · rcases mapM_result tables part inParts with
      ⟨table, inTree, answered⟩
    exact everywhere.tableScanRange inTree answered key listed

theorem collectKeys
    {limit : Nat} {found keys : List String}
    {layers : List (Except ScanFailure (List String))}
    (before : ∀ key ∈ found, ∃ value, holds key value)
    (all : ∀ layer, .ok layer ∈ layers →
      ∀ key ∈ layer, ∃ value, holds key value)
    (collected : LsmTree.collectKeys limit found layers = .ok keys) :
    ∀ key ∈ keys, ∃ value, holds key value := by
  induction layers generalizing found with
  | nil =>
      rw [← Except.ok.inj collected]
      exact before
  | cons layer rest inductionHypothesis =>
      rw [LsmTree.collectKeys] at collected
      cases layer with
      | error failure => exact absurd collected (by simp)
      | ok more =>
          rw [ok_bind] at collected
          have together : ∀ key ∈ found ++ more,
              ∃ value, holds key value := by
            intro key member
            rcases List.mem_append.mp member with old | new
            · exact before key old
            · exact all more List.mem_cons_self key new
          simp only at collected
          split at collected
          · rw [← Except.ok.inj collected]
            exact fun key member => together key (List.mem_of_mem_take member)
          · exact inductionHypothesis together
              (fun other member => all other (List.mem_cons_of_mem _ member))
              collected

theorem scanRangeLimit
    (everywhere : tree.Everywhere holds) {start rangeEnd : String}
    {limit : Nat} {keys : List String}
    (scanned : tree.scanRangeLimit faults levelCount start rangeEnd limit =
      .ok keys) :
    ∀ key ∈ keys, ∃ value, holds key value := by
  rw [LsmTree.scanRangeLimit] at scanned
  apply collectKeys _ _ scanned
  · intro key member
    exact absurd member List.not_mem_nil
  · intro layer member
    rcases List.mem_append.mp member with memtables | tables
    · rcases List.mem_map.mp memtables with ⟨memtable, inTree, answered⟩
      exact everywhere.memtableScanRange inTree answered
    · rcases List.mem_map.mp tables with ⟨table, inTree, answered⟩
      exact everywhere.tableScanRange inTree answered

theorem mem_of_lookup
    {table : SSTable} {key : String} {entry : SSTableEntry}
    (found : table.lookup key = some entry) :
    entry ∈ table.entries ∧ entry.key = key := by
  rw [SSTable.lookup] at found
  split at found
  · exact ⟨List.mem_of_find?_eq_some found,
      by simpa using List.find?_some found⟩
  · exact absurd found (by simp)

theorem mem_of_getFromLevel
    {level : Nat} {files : List SSTable} {key : String}
    {entry : SSTableEntry}
    (found : getFromLevel level files key = some entry) :
    ∃ table ∈ files, entry ∈ table.entries ∧ entry.key = key := by
  cases level with
  | zero =>
      have member := (newest_spec found).1
      rcases List.mem_filterMap.mp member with ⟨table, chosen, here⟩
      exact ⟨table, (List.mem_filter.mp chosen).1, mem_of_lookup here⟩
  | succ level =>
      rcases Option.bind_eq_some_iff.mp found with ⟨table, chosen, here⟩
      exact ⟨table, findSstableForKey_mem chosen, mem_of_lookup here⟩

theorem get
    (everywhere : tree.Everywhere holds) {key : String} {value : Value}
    (found : tree.get levelCount key = some value) : holds key value := by
  have visible_eq : ∀ {first second : Value},
      first.visible = some second → first = second := by
    intro first second shown
    rw [Value.visible] at shown
    split at shown
    · exact absurd shown (by simp)
    · exact Option.some.inj shown
  rw [get_eq] at found
  cases held : memtableValue (tree.active :: tree.immutables) key with
  | some inMemtable =>
      rw [held] at found
      rcases memtableValue_mem held with ⟨memtable, member, here⟩
      rw [← visible_eq found]
      exact everywhere.memtables memtable member key inMemtable here
  | none =>
      rw [held] at found
      rcases Option.bind_eq_some_iff.mp found with ⟨entry, first, shown⟩
      rcases List.exists_of_findSome?_eq_some first with ⟨level, -, inLevel⟩
      rcases mem_of_getFromLevel inLevel with
        ⟨table, member, inTable, sameKey⟩
      rw [SSTableEntry.visible] at shown
      split at shown
      · exact absurd shown (by simp)
      · rw [← sameKey, ← Option.some.inj shown]
        exact everywhere.tables level table member entry inTable

end LsmTree.Everywhere

/-! ## What reads of a family show -/

/-- The keys, and the values with them, that a read of a family returns.  The
prefix scans return what follows the prefix. -/
def CfRead.shown : (read : CfRead) → read.Answer →
    List (String × Option Value)
  | .get key, found => (found.map fun value => (key, some value)).toList
  | .existsKey key, (found : Bool) =>
      if found = true then [(key, none)] else []
  | .batchGet keys, found =>
      (keys.zip found).filterMap fun item =>
        item.2.map fun value => (item.1, some value)
  | .scanPrefix keyPrefix, keys =>
      keys.map fun rest => (keyPrefix ++ rest, none)
  | .scanRange _ _, keys | .scanRangeLimit _ _ _, keys =>
      keys.map fun key => (key, none)
  | .scanPrefixWithValues keyPrefix, items =>
      items.map fun item => (keyPrefix ++ item.1, some item.2)
  | .scanAll, items | .scanRangeWithValues _ _, items | .iterRange _ _, items =>
      items.map fun item => (item.1, some item.2)

theorem registered_of_ok
    {families : List String} {family : String} {α : Type}
    {next : Unit → Except ScanFailure α} {answer : α}
    (answered : (checkFamily families family >>= next) = .ok answer) :
    next () = .ok answer := by
  rw [checkFamily] at answered
  split at answered
  · exact answered
  · exact absurd answered (by simp)

namespace LsmTree.Everywhere

variable {holds : String → Value → Prop} {tree : LsmTree}
variable {faults : ReadFaults} {levelCount : Nat} {families : List String}
variable {family : String}

theorem keysWithoutFront
    {front : String} {result : Except ScanFailure (List String)}
    (all : ∀ keys, result = .ok keys →
      ∀ key ∈ keys, ∃ value, holds key value)
    {rests : List String}
    (answered : (do
        let keys ← result
        return withoutFront (familyKey family front) keys) = .ok rests) :
    ∀ rest ∈ rests, ∃ value,
      holds (familyKey family (front ++ rest)) value := by
  cases result with
  | error failure => exact absurd answered (by simp)
  | ok keys =>
      intro rest member
      rw [← Except.ok.inj answered, mem_withoutFront] at member
      exact all keys rfl _ member

theorem valuesWithoutFront
    {front : String} {result : Except ScanFailure (List (String × Value))}
    (all : ∀ items, result = .ok items →
      ∀ item ∈ items, holds item.1 item.2)
    {rests : List (String × Value)}
    (answered : (do
        let items ← result
        return itemsWithoutFront (familyKey family front) items) =
          .ok rests) :
    ∀ item ∈ rests, holds (familyKey family (front ++ item.1)) item.2 := by
  cases result with
  | error failure => exact absurd answered (by simp)
  | ok items =>
      intro item member
      rw [← Except.ok.inj answered, mem_itemsWithoutFront] at member
      exact all items rfl _ member

/-- The scans of ranges take off the front of the family alone. -/
theorem keysOfFamily
    {result : Except ScanFailure (List String)}
    (all : ∀ keys, result = .ok keys →
      ∀ key ∈ keys, ∃ value, holds key value)
    {rests : List String}
    (answered : (do
        let keys ← result
        return withoutFront (family ++ "#") keys) = .ok rests) :
    ∀ rest ∈ rests, ∃ value, holds (familyKey family rest) value := by
  rw [← familyKey_empty] at answered
  intro rest member
  have held := keysWithoutFront all answered rest member
  rwa [String.empty_append] at held

theorem valuesOfFamily
    {result : Except ScanFailure (List (String × Value))}
    (all : ∀ items, result = .ok items →
      ∀ item ∈ items, holds item.1 item.2)
    {rests : List (String × Value)}
    (answered : (do
        let items ← result
        return itemsWithoutFront (family ++ "#") items) = .ok rests) :
    ∀ item ∈ rests, holds (familyKey family item.1) item.2 := by
  rw [← familyKey_empty] at answered
  intro item member
  have held := valuesWithoutFront all answered item member
  rwa [String.empty_append] at held

/-- An item that is shown is in some layer. -/
def Shows (holds : String → Value → Prop) (family : String)
    (items : List (String × Option Value)) : Prop :=
  ∀ item ∈ items, ∃ value, holds (familyKey family item.1) value ∧
    (item.2 = none ∨ item.2 = some value)

theorem shows_keys
    {keys : List String} (whole : String → String)
    (all : ∀ key ∈ keys, ∃ value,
      holds (familyKey family (whole key)) value) :
    Shows holds family (keys.map fun key => (whole key, none)) := by
  intro item member
  rcases List.mem_map.mp member with ⟨key, inKeys, rfl⟩
  rcases all key inKeys with ⟨value, held⟩
  exact ⟨value, held, Or.inl rfl⟩

theorem shows_items
    {items : List (String × Value)} (whole : String → String)
    (all : ∀ item ∈ items,
      holds (familyKey family (whole item.1)) item.2) :
    Shows holds family
      (items.map fun item => (whole item.1, some item.2)) := by
  intro item member
  rcases List.mem_map.mp member with ⟨source, inItems, rfl⟩
  exact ⟨source.2, all source inItems, Or.inr rfl⟩

theorem rangeWithValues
    (everywhere : tree.Everywhere holds) {start rangeEnd : String}
    {items : List (String × Value)}
    (answered : tree.scanRangeWithValuesCf faults levelCount families start
      rangeEnd family = .ok items) :
    ∀ item ∈ items, holds (familyKey family item.1) item.2 :=
  valuesOfFamily (fun _ scanned => everywhere.scanRangeWithValues scanned)
    (registered_of_ok answered)

theorem read
    (everywhere : tree.Everywhere holds) {read : CfRead}
    {answer : read.Answer}
    (answered : read.run faults levelCount families family tree =
      .ok answer) : Shows holds family (read.shown answer) := by
  cases read with
  | get key =>
      have below := registered_of_ok answered
      have here := Except.ok.inj below
      intro item member
      rcases Option.map_eq_some_iff.mp (Option.mem_toList.mp member) with
        ⟨value, found, rfl⟩
      exact ⟨value, everywhere.get (here.trans found), Or.inr rfl⟩
  | existsKey key =>
      have below := registered_of_ok answered
      have here := Except.ok.inj below
      rw [existsKey_eq] at here
      have shown : ∀ found : Bool,
          (tree.get levelCount (familyKey family key)).isSome = found →
            Shows holds family
              (if found = true then [(key, none)] else []) := by
        intro found same item member
        cases found with
        | false => exact absurd member List.not_mem_nil
        | true =>
            rcases Option.isSome_iff_exists.mp same with ⟨value, read⟩
            rw [List.mem_singleton.mp member]
            exact ⟨value, everywhere.get read, Or.inl rfl⟩
      exact shown _ here
  | batchGet keys =>
      have below := registered_of_ok answered
      have here := Except.ok.inj below
      have zipped : (keys.map id).zip (keys.map fun key =>
          tree.get levelCount (familyKey family key)) =
            keys.map fun key =>
              (key, tree.get levelCount (familyKey family key)) :=
        List.zip_map'
      rw [List.map_id] at zipped
      intro item member
      rcases List.mem_filterMap.mp member with ⟨pair, inPairs, shown⟩
      rw [← here, zipped] at inPairs
      rcases List.mem_map.mp inPairs with ⟨key, -, rfl⟩
      rcases Option.map_eq_some_iff.mp shown with ⟨value, found, rfl⟩
      exact ⟨value, everywhere.get found, Or.inr rfl⟩
  | scanPrefix keyPrefix =>
      exact shows_keys (keyPrefix ++ ·) (keysWithoutFront
        (fun _ scanned => everywhere.scanPrefix scanned)
        (registered_of_ok answered))
  | scanRange start rangeEnd =>
      exact shows_keys (fun key => key) (keysOfFamily
        (fun _ scanned => everywhere.scanRange scanned)
        (registered_of_ok answered))
  | scanRangeLimit start rangeEnd limit =>
      exact shows_keys (fun key => key) (keysOfFamily
        (fun _ scanned => everywhere.scanRangeLimit scanned)
        (registered_of_ok answered))
  | scanAll =>
      exact shows_items (fun key => key) (valuesOfFamily
        (fun _ scanned => everywhere.scanPrefixWithValues scanned)
        (registered_of_ok answered))
  | scanPrefixWithValues keyPrefix =>
      exact shows_items (keyPrefix ++ ·) (valuesWithoutFront
        (fun _ scanned => everywhere.scanPrefixWithValues scanned)
        (registered_of_ok answered))
  | scanRangeWithValues start rangeEnd =>
      exact shows_items (fun key => key)
        (everywhere.rangeWithValues answered)
  | iterRange start rangeEnd =>
      rw [CfRead.run, LsmTree.iterRangeCf] at answered
      cases scanned : tree.scanRangeWithValuesCf faults levelCount families
          start rangeEnd family with
      | error failure =>
          rw [scanned] at answered
          exact absurd answered (by simp)
      | ok items =>
          rw [scanned] at answered
          rw [← Except.ok.inj answered]
          apply shows_items fun key => key
          intro item member
          exact everywhere.rangeWithValues scanned item
            (List.mem_filter.mp member).1

end LsmTree.Everywhere

/-! ## Operations on the families -/

/-- What a write puts under which key; a deletion writes `Null`. -/
def CfWrite.items : CfWrite → List (String × Value)
  | .put key value => [(key, value)]
  | .delete key => [(key, .null)]
  | .batchPut items => items

/-- The write without a family, under the keys themselves. -/
def CfWrite.plainMemtable (jsonLen : SerdeJsonValue → Nat) :
    CfWrite → Memtable → Memtable
  | .put key value, m => m.put jsonLen key value
  | .delete key, m => m.delete jsonLen key
  | .batchPut items, m => (m.batchPut jsonLen items).1

def CfWrite.runPlain (config : CompactionConfig) (limits : WriteLimits)
    (environment : WriteEnvironment) (tree : LsmTree) :
    CfWrite → LsmTree × Except ScanFailure Unit
  | .put key value =>
      tree.writeThrough config limits environment
        (CfWrite.put key value |>.plainMemtable config.jsonLen)
  | .delete key =>
      tree.writeThrough config limits environment
        (CfWrite.delete key |>.plainMemtable config.jsonLen)
  | .batchPut items =>
      if limits.maxBatchSize < items.length then
        (tree, .error (batchTooLarge limits items))
      else
        tree.writeThrough config limits environment
          (CfWrite.batchPut items |>.plainMemtable config.jsonLen)

/-- The engine with its map of families to their ids. -/
structure FamilyEngine where
  columnFamilies : Std.TreeMap String Nat
  tree : LsmTree

inductive FamilyOp where
  | createColumnFamily (name : String)
  | dropColumnFamily (name : String)
  | writeCf (family : String) (write : CfWrite)
      (environment : WriteEnvironment)
  | write (write : CfWrite) (environment : WriteEnvironment)

/-- What the operation writes. -/
def FamilyOp.written : FamilyOp → List (String × Value)
  | .writeCf family plain _ => LsmTree.familyItems family plain.items
  | .write plain _ => plain.items
  | _ => []

namespace FamilyEngine

/-- A new engine has the default family alone. -/
def opened (defaultName : String) (tree : LsmTree) : FamilyEngine :=
  ⟨(∅ : Std.TreeMap String Nat).insert defaultName 0, tree⟩

def createColumnFamily (engine : FamilyEngine) (name : String) :
    FamilyEngine :=
  { engine with columnFamilies :=
      engine.columnFamilies.insert name engine.columnFamilies.size }

def dropColumnFamily (engine : FamilyEngine) (name : String) :
    FamilyEngine :=
  { engine with columnFamilies := engine.columnFamilies.erase name }

def step (config : CompactionConfig) (limits : WriteLimits)
    (engine : FamilyEngine) : FamilyOp → FamilyEngine
  | .createColumnFamily name => engine.createColumnFamily name
  | .dropColumnFamily name => engine.dropColumnFamily name
  | .writeCf family write environment =>
      { engine with tree := (write.run config limits environment
          engine.columnFamilies.keys family engine.tree).1 }
  | .write write environment =>
      { engine with tree :=
          (write.runPlain config limits environment engine.tree).1 }

def run (config : CompactionConfig) (limits : WriteLimits)
    (engine : FamilyEngine) (ops : List FamilyOp) : FamilyEngine :=
  ops.foldl (step config limits) engine

/-- No two families have one id. -/
def DistinctIds (engine : FamilyEngine) : Prop :=
  ∀ (first second : String) (id : Nat),
    engine.columnFamilies[first]? = some id →
      engine.columnFamilies[second]? = some id → first = second

/-- What a run of operations should do: ids stay distinct, and what a family
shows after it has been dropped was written after that. -/
structure Forgets (config : CompactionConfig) (limits : WriteLimits)
    (engine : FamilyEngine) (ops : List FamilyOp) : Prop where
  distinct : ∀ before after, ops = before ++ after →
    (engine.run config limits before).DistinctIds
  fresh : ∀ before name after,
    ops = before ++ .dropColumnFamily name :: after →
      ∀ (faults : ReadFaults) (read : CfRead) (answer : read.Answer),
        read.run faults config.levelCount
            (engine.run config limits ops).columnFamilies.keys name
            (engine.run config limits ops).tree = .ok answer →
          ∀ item ∈ read.shown answer, ∃ op ∈ after, ∃ value,
            (familyKey name item.1, value) ∈ op.written ∧
              (item.2 = none ∨ item.2 = some value)

/-- The steps that do no harm: a family is created when no other one has the
size of the map as its id, and dropped when no layer holds a key of it. -/
def Harmless (engine : FamilyEngine) : FamilyOp → Prop
  | .createColumnFamily name => ∀ other, other ≠ name →
      engine.columnFamilies[other]? ≠ some engine.columnFamilies.size
  | .dropColumnFamily name =>
      engine.tree.Everywhere fun key _ => startsWith key (name ++ "#") = false
  | _ => True

/-- Every operation of the run is harmless where it happens. -/
def RunsHarmless (config : CompactionConfig) (limits : WriteLimits) :
    FamilyEngine → List FamilyOp → Prop
  | _, [] => True
  | engine, op :: rest => engine.Harmless op ∧
      RunsHarmless config limits (engine.step config limits op) rest

end FamilyEngine

/-! ## What the operations keep -/

theorem Memtable.batchPut_written
    (jsonLen : SerdeJsonValue → Nat) (items : List (String × Value))
    (m : Memtable) {key : String} {value : Value}
    (found : (m.batchPut jsonLen items).1.data[key]? = some value) :
    m.data[key]? = some value ∨ (key, value) ∈ items := by
  induction items generalizing m with
  | nil => exact Or.inl found
  | cons item rest inductionHypothesis =>
      rw [Memtable.batchPut] at found
      rcases inductionHypothesis _ found with before | behind
      · rw [Memtable.put_get] at before
        split at before
        · case isTrue same =>
            right
            rw [← same, ← Option.some.inj before]
            exact List.mem_cons_self
        · exact Or.inl before
      · exact Or.inr (List.mem_cons_of_mem _ behind)

theorem CfWrite.plainMemtable_written
    (jsonLen : SerdeJsonValue → Nat) (write : CfWrite) (m : Memtable)
    {key : String} {value : Value}
    (found : (write.plainMemtable jsonLen m).data[key]? = some value) :
    m.data[key]? = some value ∨ (key, value) ∈ write.items := by
  have single : ∀ {own : String} {new : Value},
      (if own = key then some new else m.data[key]?) = some value →
        m.data[key]? = some value ∨ (key, value) ∈ [(own, new)] := by
    intro own new here
    split at here
    · case isTrue same =>
        right
        rw [same, Option.some.inj here]
        exact List.mem_cons_self
    · exact Or.inl here
  cases write with
  | put own new =>
      rw [CfWrite.plainMemtable, Memtable.put_get] at found
      exact single found
  | delete own =>
      rw [CfWrite.plainMemtable, Memtable.delete_get] at found
      exact single found
  | batchPut items => exact Memtable.batchPut_written jsonLen items m found

/-- A write of a family is a plain write of its keys. -/
def CfWrite.inFamily (family : String) : CfWrite → CfWrite
  | .put key value => .put (familyKey family key) value
  | .delete key => .delete (familyKey family key)
  | .batchPut items => .batchPut (LsmTree.familyItems family items)

theorem CfWrite.inFamily_items (family : String) (write : CfWrite) :
    (write.inFamily family).items =
      LsmTree.familyItems family write.items := by
  cases write <;> rfl

theorem CfWrite.run_tree
    (config : CompactionConfig) (limits : WriteLimits)
    (environment : WriteEnvironment) (families : List String)
    (family : String) (write : CfWrite) (tree : LsmTree) :
    (write.run config limits environment families family tree).1 = tree ∨
      (write.run config limits environment families family tree).1 =
        ((write.inFamily family).runPlain config limits environment tree).1 := by
  cases write with
  | put key value =>
      rw [CfWrite.run, LsmTree.putCf]
      split
      · exact Or.inl rfl
      · exact Or.inr rfl
  | delete key =>
      rw [CfWrite.run, LsmTree.deleteCf]
      split
      · exact Or.inl rfl
      · exact Or.inr rfl
  | batchPut items =>
      rw [CfWrite.run, LsmTree.batchPutCf]
      split
      · exact Or.inl rfl
      · right
        rw [CfWrite.inFamily, CfWrite.runPlain, LsmTree.familyItems,
          List.length_map]
        split
        · rfl
        · rfl

namespace FamilyEngine

variable {config : CompactionConfig} {limits : WriteLimits}
variable {engine : FamilyEngine}

theorem runPlain_everywhere
    {holds : String → Value → Prop} {tree : LsmTree}
    (everywhere : tree.Everywhere holds) (environment : WriteEnvironment)
    {write : CfWrite} (own : ∀ item ∈ write.items, holds item.1 item.2) :
    (write.runPlain config limits environment tree).1.Everywhere holds := by
  have through := @LsmTree.Everywhere.writeThrough config limits environment
    holds tree everywhere (write.plainMemtable config.jsonLen)
    (fun key value found =>
      (write.plainMemtable_written config.jsonLen tree.active found).imp_right
        (own (key, value)))
  cases write with
  | put key value => exact through
  | delete key => exact through
  | batchPut items =>
      rw [CfWrite.runPlain]
      split
      · exact everywhere
      · exact through

/-- What holds of all entries and of what is written holds afterwards. -/
theorem step_everywhere
    {holds : String → Value → Prop}
    (everywhere : engine.tree.Everywhere holds) {op : FamilyOp}
    (own : ∀ item ∈ op.written, holds item.1 item.2) :
    (engine.step config limits op).tree.Everywhere holds := by
  cases op with
  | createColumnFamily name => exact everywhere
  | dropColumnFamily name => exact everywhere
  | write write environment =>
      exact runPlain_everywhere everywhere environment own
  | writeCf family write environment =>
      rw [step]
      rcases CfWrite.run_tree config limits environment
        engine.columnFamilies.keys family write engine.tree with
        refused | ran
      · simp only [refused]
        exact everywhere
      · simp only [ran]
        apply runPlain_everywhere everywhere
        rw [CfWrite.inFamily_items]
        exact own

theorem run_everywhere
    {holds : String → Value → Prop}
    (everywhere : engine.tree.Everywhere holds) {ops : List FamilyOp}
    (own : ∀ op ∈ ops, ∀ item ∈ op.written, holds item.1 item.2) :
    (engine.run config limits ops).tree.Everywhere holds := by
  induction ops generalizing engine with
  | nil => exact everywhere
  | cons op rest inductionHypothesis =>
      exact inductionHypothesis
        (step_everywhere everywhere (own op List.mem_cons_self))
        fun other member => own other (List.mem_cons_of_mem _ member)

/-- Ids stay distinct exactly when a family gets an id that no other one
has. -/
theorem createColumnFamily_distinct_iff
    (distinct : engine.DistinctIds) (name : String) :
    (engine.createColumnFamily name).DistinctIds ↔
      engine.Harmless (.createColumnFamily name) := by
  have found : ∀ other,
      (engine.createColumnFamily name).columnFamilies[other]? =
        if name = other then some engine.columnFamilies.size
        else engine.columnFamilies[other]? := by
    intro other
    simp only [createColumnFamily, Std.TreeMap.getElem?_insert,
      Std.compare_eq_iff_eq]
  constructor
  · intro stays other different taken
    apply different
    apply stays other name engine.columnFamilies.size
    · rw [found, if_neg (Ne.symm different)]
      exact taken
    · rw [found, if_pos rfl]
  · intro harmless first second id firstId secondId
    rw [found] at firstId secondId
    split at firstId
    · case isTrue here =>
        split at secondId
        · case isTrue there => exact here.symm.trans there
        · case isFalse other =>
            rw [← Option.some.inj firstId] at secondId
            exact absurd secondId (harmless second (Ne.symm other))
    · case isFalse other =>
        split at secondId
        · case isTrue there =>
            rw [← Option.some.inj secondId] at firstId
            exact absurd firstId (harmless first (Ne.symm other))
        · exact distinct first second id firstId secondId

theorem step_distinct
    (distinct : engine.DistinctIds) {op : FamilyOp}
    (harmless : engine.Harmless op) :
    (engine.step config limits op).DistinctIds := by
  cases op with
  | createColumnFamily name =>
      exact (createColumnFamily_distinct_iff distinct name).mpr harmless
  | dropColumnFamily name =>
      intro first second id firstId secondId
      have kept : ∀ other : String,
          (engine.dropColumnFamily name).columnFamilies[other]? = some id →
            engine.columnFamilies[other]? = some id := by
        intro other here
        simp only [dropColumnFamily, Std.TreeMap.getElem?_erase] at here
        split at here
        · exact absurd here (by simp)
        · exact here
      exact distinct first second id (kept first firstId)
        (kept second secondId)
  | writeCf family write environment => exact distinct
  | write write environment => exact distinct

theorem opened_distinct (defaultName : String) (tree : LsmTree) :
    (opened defaultName tree).DistinctIds := by
  have only : ∀ name id,
      (opened defaultName tree).columnFamilies[name]? = some id →
        name = defaultName := by
    intro name id here
    simp only [opened, Std.TreeMap.getElem?_insert,
      Std.compare_eq_iff_eq] at here
    split at here
    · case isTrue same => exact same.symm
    · exact absurd here (by simp)
  intro first second id firstId secondId
  exact (only first id firstId).trans (only second id secondId).symm

theorem RunsHarmless.append
    {before after : List FamilyOp}
    (harmless : RunsHarmless config limits engine (before ++ after)) :
    RunsHarmless config limits engine before ∧
      RunsHarmless config limits (engine.run config limits before) after := by
  induction before generalizing engine with
  | nil => exact ⟨trivial, harmless⟩
  | cons op rest inductionHypothesis =>
      rcases inductionHypothesis harmless.2 with ⟨first, second⟩
      exact ⟨⟨harmless.1, first⟩, second⟩

theorem run_distinct
    (distinct : engine.DistinctIds) {ops : List FamilyOp}
    (harmless : RunsHarmless config limits engine ops) :
    (engine.run config limits ops).DistinctIds := by
  induction ops generalizing engine with
  | nil => exact distinct
  | cons op rest inductionHypothesis =>
      exact inductionHypothesis (step_distinct distinct harmless.1) harmless.2

end FamilyEngine

/-- In every run of harmless operations the ids stay distinct, and a family
that has been dropped shows only what was written after that. -/
theorem harmless_runs_forget
    (config : CompactionConfig) (limits : WriteLimits) (defaultName : String)
    (tree : LsmTree) {ops : List FamilyOp}
    (harmless : FamilyEngine.RunsHarmless config limits
      (.opened defaultName tree) ops) :
    (FamilyEngine.opened defaultName tree).Forgets config limits ops := by
  constructor
  · intro before after split
    rw [split] at harmless
    exact FamilyEngine.run_distinct
      (FamilyEngine.opened_distinct defaultName tree) harmless.append.1
  · intro before name after split faults read answer answered item member
    rw [split] at harmless answered
    have atDrop := harmless.append.2.1
    have whole : ∀ key value, startsWith key (name ++ "#") = false →
        startsWith key (name ++ "#") = true →
          ∃ op ∈ after, (key, value) ∈ op.written := by
      intro key value outside inside
      rw [outside] at inside
      exact absurd inside (by simp)
    have everywhere := @FamilyEngine.run_everywhere config limits
      (FamilyEngine.dropColumnFamily
        ((FamilyEngine.opened defaultName tree).run config limits before)
        name)
      (fun key value => startsWith key (name ++ "#") = true →
        ∃ op ∈ after, (key, value) ∈ op.written)
      (atDrop.mono whole) after
      (fun op inAfter written inOp _ => ⟨op, inAfter, inOp⟩)
    have ran : FamilyEngine.run config limits (.opened defaultName tree)
        (before ++ .dropColumnFamily name :: after) =
      FamilyEngine.run config limits (FamilyEngine.dropColumnFamily
        ((FamilyEngine.opened defaultName tree).run config limits before)
        name) after := List.foldl_append
    rw [ran] at answered
    rcases everywhere.read answered item member with ⟨value, held, same⟩
    rcases held (startsWith_front_familyKey name item.1) with
      ⟨op, inAfter, wrote⟩
    exact ⟨op, inAfter, value, wrote, same⟩

/-! ## Families that are created again -/

def someLimits : WriteLimits := ⟨1000, 10, false⟩

/-- A key that is written after its family has been created anew. -/
def writtenAnew : List FamilyOp :=
  [.createColumnFamily "n", .dropColumnFamily "n", .createColumnFamily "n",
    .writeCf "n" (.put "k" (.bool true)) freeEnvironment]

theorem writtenAnew_forgets :
    (FamilyEngine.opened "default" .empty).Forgets leveledConfig someLimits
      writtenAnew := by
  have nothing : LsmTree.empty.Everywhere fun key _ =>
      startsWith key ("n" ++ "#") = false := by
    constructor
    · intro memtable member key value found
      rw [List.mem_singleton.mp member] at found
      exact absurd ((Memtable.new_get key).symm.trans found) (by simp)
    · intro level table member
      exact absurd member List.not_mem_nil
  have alone : ∀ (families : Std.TreeMap String Nat), families.size = 1 →
      (∀ other, other ≠ "n" → families[other]? =
        if "default" = other then some 0 else none) →
      ∀ other, other ≠ "n" → families[other]? ≠ some families.size := by
    intro families single found other different taken
    rw [found other different, single] at taken
    split at taken
    · exact absurd taken (by decide)
    · exact absurd taken (by simp)
  apply harmless_runs_forget leveledConfig someLimits "default" .empty
  refine ⟨alone _ rfl ?_, nothing, alone _ rfl ?_, trivial, trivial⟩
  · intro other different
    simp [FamilyEngine.opened, Std.TreeMap.getElem?_insert]
  · intro other different
    simp [FamilyEngine.opened, FamilyEngine.step,
      FamilyEngine.createColumnFamily, FamilyEngine.dropColumnFamily,
      Std.TreeMap.getElem?_insert, Std.TreeMap.getElem?_erase,
      different.symm]

/-- The third family has the id of the second after the first has been
dropped. -/
def createdAfterDrop : List FamilyOp :=
  [.createColumnFamily "a", .createColumnFamily "b", .dropColumnFamily "a",
    .createColumnFamily "c"]

def writtenBefore : List FamilyOp :=
  [.createColumnFamily "n",
    .writeCf "n" (.put "k" (.bool true)) freeEnvironment,
    .dropColumnFamily "n", .createColumnFamily "n"]

/-- Ids repeat, and a family that is created again still has its keys. -/
theorem dropped_family_comes_back :
    ¬ (FamilyEngine.opened "default" .empty).Forgets leveledConfig someLimits
        createdAfterDrop ∧
      ¬ (FamilyEngine.opened "default" .empty).Forgets leveledConfig
        someLimits writtenBefore := by
  constructor
  · intro forgets
    have same := forgets.distinct createdAfterDrop [] rfl "b" "c" 2 rfl rfl
    exact absurd same (by decide)
  · intro forgets
    rcases forgets.fresh (writtenBefore.take 2) "n"
      [.createColumnFamily "n"] rfl .none (.get "k") (some (.bool true)) rfl
      ("k", some (.bool true)) List.mem_cons_self with ⟨op, member, value, wrote, -⟩
    rw [List.mem_singleton.mp member] at wrote
    exact absurd wrote List.not_mem_nil

end F4kvsLsm
