import F4kvsLsm.Engine.ScanReads
import F4kvsLsm.Lib.Fallible

/-!
# Key scans beside reads

A key scan takes a key for live when any layer says so: a memtable that holds
it with a value, a table that holds a version of it, whatever was written
later.  It is therefore right exactly when no deleted key that it was asked
for has left anything of that kind behind.
-/

namespace F4kvsLsm

open Fallible KeyOrder Versions

namespace LsmTree

/-- The last word on a key is a deletion: in the first memtable that holds
it, or else in the newest version in the tables. -/
def LastDeleted (levelCount : Nat) (tree : LsmTree) (key : String) : Prop :=
  match memtableValue (tree.active :: tree.immutables) key with
  | some value => value.isNull = true
  | none => ∃ entry, latest (allEntries
      (scanTables levelCount tree.levels)) key = some entry ∧
        entry.deleted = true

def MemtableHolds (tree : LsmTree) (key : String) : Prop :=
  ∃ memtable ∈ tree.active :: tree.immutables,
    ∃ value, memtable.data[key]? = some value ∧ value.isNull = false

def TableHolds (levelCount : Nat) (tree : LsmTree) (key : String) : Prop :=
  ∃ entry ∈ allEntries (scanTables levelCount tree.levels), entry.key = key

/-- Some table holds a version of the key that is not deleted. -/
def TableHoldsLive (levelCount : Nat) (tree : LsmTree) (key : String) :
    Prop :=
  ∃ entry ∈ allEntries (scanTables levelCount tree.levels),
    entry.key = key ∧ entry.deleted = false

/-- How many layers hold the key with a value. -/
def valueCount (levelCount : Nat) (tree : LsmTree) (key : String) : Nat :=
  (tree.active :: tree.immutables).countP
      (fun memtable => (memtable.data[key]?).any (!·.isNull)) +
    (allEntries (scanTables levelCount tree.levels)).countP
      (fun entry => entry.key = key ∧ entry.deleted = false)

end LsmTree

/-- Exactly the wanted keys, in order and once each. -/
def ListsKeys (wanted : String → Prop) (keys : List String) : Prop :=
  keys.Pairwise (· < ·) ∧ ∀ key, key ∈ keys ↔ wanted key

/-! ## Sorting and removing duplicates -/

namespace LsmTree

theorem dedupKeys_spec {keys : List String} (sorted : keys.Pairwise (· ≤ ·)) :
    (dedupKeys keys).Pairwise (· < ·) ∧
      ∀ key, key ∈ dedupKeys keys ↔ key ∈ keys := by
  induction keys with
  | nil => simp [dedupKeys]
  | cons first rest inductionHypothesis =>
      have parts := List.pairwise_cons.mp sorted
      obtain ⟨ordered, same⟩ := inductionHypothesis parts.2
      rw [dedupKeys]
      cases result : dedupKeys rest with
      | nil =>
          rw [result] at same
          have empty : rest = [] := by
            apply List.eq_nil_iff_forall_not_mem.mpr
            intro key member
            exact List.not_mem_nil ((same key).mpr member)
          rw [empty]
          simp
      | cons second others =>
          rw [result] at ordered same
          have above : first ≤ second :=
            parts.1 second ((same second).mp List.mem_cons_self)
          by_cases equal : first = second
          · simp only [if_pos equal]
            apply And.intro ordered
            intro key
            rw [same, List.mem_cons]
            constructor
            · exact Or.inr
            · intro member
              rcases member with here | behind
              · rw [here, equal]
                exact (same second).mp List.mem_cons_self
              · exact behind
          · simp only [if_neg equal]
            constructor
            · apply List.Pairwise.cons _ ordered
              intro key member
              rcases List.mem_cons.mp member with here | behind
              · rw [here]
                exact lt_of_le_of_ne above equal
              · have more := (List.pairwise_cons.mp ordered).1 key behind
                exact above.trans_lt more
            · intro key
              rw [List.mem_cons, same, List.mem_cons]

theorem sortDedup_listsKeys {keys : List String} {wanted : String → Prop}
    (collected : ∀ key, key ∈ keys ↔ wanted key) :
    ListsKeys wanted (sortDedup keys) := by
  have sorted : (keys.insertionSort (· ≤ ·)).Pairwise (· ≤ ·) :=
    List.pairwise_insertionSort (· ≤ ·) keys
  have spec := dedupKeys_spec sorted
  refine ⟨spec.1, fun key => ?_⟩
  rw [sortDedup, spec.2, List.mem_insertionSort (· ≤ ·), collected]

end LsmTree

theorem listsKeys_correct_iff
    {result : Except ScanFailure (List String)}
    {listed wanted : String → Prop}
    (scanned : ∃ keys, result = .ok keys ∧ ListsKeys listed keys) :
    (∃ keys, result = .ok keys ∧ ListsKeys wanted keys) ↔
      ∀ key, listed key ↔ wanted key := by
  obtain ⟨keys, success, listing⟩ := scanned
  constructor
  · intro correct key
    obtain ⟨keys', success', listing'⟩ := correct
    rw [success, Except.ok.injEq] at success'
    rw [← listing.2 key, success', listing'.2 key]
  · intro same
    refine ⟨keys, success, listing.1, fun key => ?_⟩
    rw [listing.2 key, same key]

section

variable {config : CompactionConfig} {tree : LsmTree}

/-! ## What each scan lists -/

theorem mem_liveKeys {entries : List (String × Value × Bool)}
    {key : String} :
    key ∈ Memtable.liveKeys entries ↔
      ∃ value, (key, value, false) ∈ entries := by
  rw [Memtable.liveKeys, List.mem_map]
  constructor
  · intro member
    obtain ⟨entry, inEntries, same⟩ := member
    have parts := List.mem_filter.mp inEntries
    have live : entry.2.2 = false := by simpa using parts.2
    refine ⟨entry.2.1, ?_⟩
    rw [← same, ← live]
    exact parts.1
  · intro held
    obtain ⟨value, member⟩ := held
    exact ⟨_, List.mem_filter.mpr ⟨member, rfl⟩, rfl⟩

theorem mem_memtableKeys (chosen : String → Bool) {key : String} :
    key ∈ ((tree.active :: tree.immutables).map fun memtable =>
        Memtable.liveKeys (memtable.getAllEntries.filter
          fun entry => chosen entry.1)).flatten ↔
      chosen key = true ∧ tree.MemtableHolds key := by
  simp only [List.mem_flatten, List.mem_map]
  constructor
  · intro held
    obtain ⟨_, ⟨memtable, member, rfl⟩, inKeys⟩ := held
    obtain ⟨value, inEntries⟩ := mem_liveKeys.mp inKeys
    have parts := List.mem_filter.mp inEntries
    obtain ⟨found, live⟩ := Memtable.mem_getAllEntries.mp parts.1
    exact ⟨parts.2, memtable, member, value, found, live.symm⟩
  · intro held
    obtain ⟨wanted, memtable, member, value, found, live⟩ := held
    refine ⟨_, ⟨memtable, member, rfl⟩, ?_⟩
    apply mem_liveKeys.mpr
    refine ⟨value, List.mem_filter.mpr ⟨?_, wanted⟩⟩
    exact Memtable.mem_getAllEntries.mpr ⟨found, live.symm⟩

theorem mem_tableKeys {files : List SSTable} (chosen : String → Bool)
    {keeps : SSTableEntry → Bool} {key : String} :
    key ∈ (files.map fun table => ((table.entries.filter
        fun entry => chosen entry.key).filter keeps).map (·.key)).flatten ↔
      chosen key = true ∧ ∃ entry ∈ allEntries files,
        entry.key = key ∧ keeps entry = true := by
  simp only [List.mem_flatten, List.mem_map, mem_allEntries]
  constructor
  · intro held
    obtain ⟨_, ⟨table, member, rfl⟩, inKeys⟩ := held
    obtain ⟨entry, inTable, same⟩ := List.mem_map.mp inKeys
    have outer := List.mem_filter.mp inTable
    have inner := List.mem_filter.mp outer.1
    refine ⟨?_, entry, ⟨table, member, inner.1⟩, same, outer.2⟩
    rw [← same]
    exact inner.2
  · intro held
    obtain ⟨wanted, entry, ⟨table, member, inTable⟩, same, kept⟩ := held
    refine ⟨_, ⟨table, member, rfl⟩, ?_⟩
    apply List.mem_map.mpr
    refine ⟨entry, List.mem_filter.mpr ⟨?_, kept⟩, same⟩
    apply List.mem_filter.mpr
    rw [same]
    exact ⟨inTable, wanted⟩

theorem scanPrefix_listsKeys
    (invariant : tree.Invariant config) (keyPrefix : String) :
    ∃ keys, tree.scanPrefix .none config.levelCount keyPrefix = .ok keys ∧
      ListsKeys (fun key => startsWith key keyPrefix = true ∧
        (tree.MemtableHolds key ∨ tree.TableHolds config.levelCount key))
        keys := by
  have wellFormed := invariant.scanTables_wellFormed config.levelCount
  have tables : ∀ table ∈ LsmTree.scanTables config.levelCount tree.levels,
      table.scanPrefix .none keyPrefix =
        .ok (((table.entries.filter
          fun entry => startsWith entry.key keyPrefix).filter
            fun _ => true).map (·.key)) := by
    intro table member
    rw [List.filter_true,
      ← SSTable.indexFrom_prefix_eq
        (wellFormed table member).sorted]
    rfl
  have memtables : (tree.active :: tree.immutables).flatMap
      (·.scanPrefix keyPrefix) =
        ((tree.active :: tree.immutables).map fun memtable =>
          Memtable.liveKeys (memtable.getAllEntries.filter
            fun entry => startsWith entry.1 keyPrefix)).flatten := by
    simp only [List.flatMap_def, Memtable.scanPrefix,
      Memtable.scanPrefixLayer_eq]
  rw [LsmTree.scanPrefix, mapM_eq_ok tables, ok_bind, memtables]
  refine ⟨_, rfl, LsmTree.sortDedup_listsKeys fun key => ?_⟩
  rw [List.mem_append, mem_memtableKeys (startsWith · keyPrefix),
    mem_tableKeys (startsWith · keyPrefix), ← and_or_left]
  simp only [and_true, LsmTree.TableHolds]

theorem scanRange_listsKeys
    (invariant : tree.Invariant config) {start rangeEnd : String}
    (ordered : start ≤ rangeEnd) :
    ∃ keys, tree.scanRange .none config.levelCount start rangeEnd =
        .ok keys ∧
      ListsKeys (fun key => inRange start rangeEnd key = true ∧
        (tree.MemtableHolds key ∨
          tree.TableHoldsLive config.levelCount key)) keys := by
  have wellFormed := invariant.scanTables_wellFormed config.levelCount
  have tables : ∀ table ∈ LsmTree.scanTables config.levelCount tree.levels,
      table.scanRange .none start rangeEnd =
        .ok (((table.entries.filter
          fun entry => inRange start rangeEnd entry.key).filter
            fun entry => !entry.deleted).map (·.key)) := by
    intro table member
    have layer : table.scanRangeLayer .none start rangeEnd =
        .ok ((table.layer).filter
          fun entry => inRange start rangeEnd entry.1) := by
      rw [← SSTable.readable_none, ← SSTable.readEntries_filter,
        ← SSTable.indexFrom_range_eq
          (wellFormed table member).sorted]
      rfl
    rw [SSTable.scanRange, layer, ok_bind, Memtable.liveKeys, SSTable.layer,
      List.filter_map, List.filter_map, List.map_map]
    rfl
  have memtables : ∀ memtable ∈ tree.active :: tree.immutables,
      memtable.scanRange start rangeEnd =
        .ok (Memtable.liveKeys (memtable.getAllEntries.filter
          fun entry => inRange start rangeEnd entry.1)) := by
    intro memtable _
    rw [Memtable.scanRange, Memtable.scanRangeLayer_eq, if_neg]
    · rfl
    · rw [not_rangeReversed_of_le ordered]
      simp
  rw [LsmTree.scanRange, mapM_eq_ok memtables, ok_bind, mapM_eq_ok tables,
    ok_bind]
  refine ⟨_, rfl, LsmTree.sortDedup_listsKeys fun key => ?_⟩
  rw [List.mem_append, mem_memtableKeys (inRange start rangeEnd),
    mem_tableKeys (inRange start rangeEnd), ← and_or_left]
  simp only [Bool.not_eq_true', LsmTree.TableHoldsLive]

/-! ## What reads say about the same keys -/

theorem LsmTree.LastDeleted.get
    (invariant : tree.Invariant config) {key : String}
    (deleted : tree.LastDeleted config.levelCount key) :
    tree.get config.levelCount key = none := by
  rw [LsmTree.LastDeleted] at deleted
  rw [LsmTree.get_eq]
  cases held : memtableValue (tree.active :: tree.immutables) key with
  | some value =>
      simp only [held] at deleted
      simp only [Value.visible, deleted, if_true]
  | none =>
      simp only [held] at deleted
      obtain ⟨entry, newest, gone⟩ := deleted
      simp only
      rw [invariant.getFromSstables_latest, newest, Option.bind_some,
        entry.visible_eq_none_iff.mpr gone]

theorem memtableValue_mem {memtables : List Memtable} {key : String}
    {value : Value} (found : memtableValue memtables key = some value) :
    ∃ memtable ∈ memtables, memtable.data[key]? = some value :=
  List.exists_of_findSome?_eq_some found

theorem LsmTree.Invariant.held_of_get
    (invariant : tree.Invariant config) {key : String} {value : Value}
    (found : tree.get config.levelCount key = some value) :
    (∃ memtable ∈ tree.active :: tree.immutables,
      memtable.data[key]? = some value ∧ value.isNull = false) ∨
    ∃ entry ∈ allEntries (scanTables config.levelCount tree.levels),
      entry.key = key ∧ entry.deleted = false ∧ entry.value = value := by
  rw [LsmTree.get_eq] at found
  cases held : memtableValue (tree.active :: tree.immutables) key with
  | some first =>
      simp only [held, Value.visible] at found
      split at found
      · exact absurd found (by simp)
      · case isFalse live =>
          rw [Option.some.injEq] at found
          subst found
          left
          obtain ⟨memtable, member, here⟩ := memtableValue_mem held
          exact ⟨memtable, member, here, Bool.eq_false_iff.mpr live⟩
  | none =>
      simp only [held] at found
      rw [invariant.getFromSstables_latest, Option.bind_eq_some_iff] at found
      obtain ⟨entry, newest, shown⟩ := found
      right
      have spec :=
        (latest_eq_some_iff invariant.scanTables_distinct).mp newest
      rw [SSTableEntry.visible] at shown
      split at shown
      · exact absurd shown (by simp)
      · case isFalse live =>
          exact ⟨entry, spec.1.1, spec.1.2, by simpa using live,
            Option.some.inj shown⟩

theorem LsmTree.Invariant.get_of_held
    (invariant : tree.Invariant config) {key : String}
    (held : tree.MemtableHolds key ∨ tree.TableHolds config.levelCount key)
    (kept : ¬ tree.LastDeleted config.levelCount key) :
    (tree.get config.levelCount key).isSome = true := by
  rw [LsmTree.LastDeleted] at kept
  rw [LsmTree.get_eq]
  cases first : memtableValue (tree.active :: tree.immutables) key with
  | some value =>
      simp only [first] at kept
      simp only [Value.visible, if_neg kept, Option.isSome_some]
  | none =>
      simp only [first] at kept
      simp only
      rw [invariant.getFromSstables_latest]
      cases newest : latest (allEntries
          (scanTables config.levelCount tree.levels)) key with
      | some entry =>
          have live : ¬ entry.deleted = true :=
            fun gone => kept ⟨entry, newest, gone⟩
          rw [Option.bind_some, SSTableEntry.visible, if_neg live,
            Option.isSome_some]
      | none =>
          rw [latest_eq_none_iff] at newest
          rcases held with inMemtable | inTable
          · obtain ⟨memtable, member, value, here, -⟩ := inMemtable
            have miss := List.findSome?_eq_none_iff.mp first memtable member
            rw [here] at miss
            exact absurd miss (by simp)
          · obtain ⟨entry, member, same⟩ := inTable
            exact absurd same (newest entry member)

/-- A scan that lists the held keys lists the live ones exactly when no
deleted key is held. -/
theorem LsmTree.Invariant.listed_iff_live
    (invariant : tree.Invariant config) {chosen holds : String → Prop}
    (live : ∀ key, (tree.get config.levelCount key).isSome = true →
      holds key)
    (held : ∀ key, holds key → tree.MemtableHolds key ∨
      tree.TableHolds config.levelCount key) :
    (∀ key, (chosen key ∧ holds key) ↔
        (chosen key ∧ (tree.get config.levelCount key).isSome = true)) ↔
      ∀ key, chosen key → tree.LastDeleted config.levelCount key →
        ¬ holds key := by
  constructor
  · intro same key wanted deleted stays
    have shown := ((same key).mp ⟨wanted, stays⟩).2
    rw [deleted.get invariant] at shown
    exact absurd shown (by simp)
  · intro clean key
    constructor
    · intro listed
      refine ⟨listed.1, invariant.get_of_held (held key listed.2) ?_⟩
      exact fun deleted => clean key listed.1 deleted listed.2
    · intro shown
      exact ⟨shown.1, live key shown.2⟩

theorem LsmTree.Invariant.holdsLive_of_get
    (invariant : tree.Invariant config) {key : String}
    (live : (tree.get config.levelCount key).isSome = true) :
    tree.MemtableHolds key ∨ tree.TableHoldsLive config.levelCount key := by
  obtain ⟨value, found⟩ := Option.isSome_iff_exists.mp live
  rcases invariant.held_of_get found with inMemtable | inTable
  · left
    obtain ⟨memtable, member, here, notNull⟩ := inMemtable
    exact ⟨memtable, member, value, here, notNull⟩
  · right
    obtain ⟨entry, member, same, alive, -⟩ := inTable
    exact ⟨entry, member, same, alive⟩

theorem LsmTree.TableHoldsLive.tableHolds {levelCount : Nat} {key : String}
    (held : tree.TableHoldsLive levelCount key) :
    tree.TableHolds levelCount key := by
  obtain ⟨entry, member, same, -⟩ := held
  exact ⟨entry, member, same⟩

/-! ## The scan of everything -/

theorem scanAll_eq
    (tree : LsmTree) (levelCount : Nat) :
    tree.scanAll .none levelCount =
      .ok (((tree.active :: tree.immutables).flatMap fun memtable =>
          LsmTree.liveEntries memtable.getAllEntries) ++
        ((allEntries (LsmTree.scanTables levelCount tree.levels)).filter
          fun entry => !entry.deleted).map
            fun entry => (entry.key, entry.value)) := by
  have tables : ∀ table ∈ LsmTree.scanTables levelCount tree.levels,
      table.scanAll .none = .ok table.layer := by
    intro table _
    rw [← SSTable.readable_none]
    rfl
  have flat : ∀ files : List SSTable,
      (files.map SSTable.layer).flatMap LsmTree.liveEntries =
        ((allEntries files).filter fun entry => !entry.deleted).map
          fun entry => (entry.key, entry.value) := by
    intro files
    induction files with
    | nil => rfl
    | cons table rest inductionHypothesis =>
        have split : allEntries (table :: rest) =
            table.entries ++ allEntries rest := List.flatMap_cons
        rw [List.map_cons, List.flatMap_cons, inductionHypothesis, split,
          List.filter_append, List.map_append]
        congr 1
        rw [LsmTree.liveEntries, SSTable.layer, List.filter_map, List.map_map]
        rfl
  rw [LsmTree.scanAll, mapM_eq_ok tables, ok_bind, flat]
  rfl

theorem mem_liveEntries {memtable : Memtable} {key : String}
    {value : Value} :
    (key, value) ∈ LsmTree.liveEntries memtable.getAllEntries ↔
      memtable.data[key]? = some value ∧ value.isNull = false := by
  rw [LsmTree.liveEntries, List.mem_map]
  constructor
  · intro held
    obtain ⟨entry, member, same⟩ := held
    have parts := List.mem_filter.mp member
    obtain ⟨found, gone⟩ := Memtable.mem_getAllEntries.mp parts.1
    rw [Prod.mk.injEq] at same
    rw [← same.1, ← same.2]
    refine ⟨found, ?_⟩
    rw [← gone]
    simpa using parts.2
  · intro held
    refine ⟨(key, value, false), List.mem_filter.mpr ⟨?_, rfl⟩, rfl⟩
    exact Memtable.mem_getAllEntries.mpr ⟨held.1, held.2.symm⟩

/-- A key is among the items as often as layers hold it with a value. -/
theorem count_scanAll (levelCount : Nat) (key : String) :
    ((((tree.active :: tree.immutables).flatMap fun memtable =>
          LsmTree.liveEntries memtable.getAllEntries) ++
        ((allEntries (LsmTree.scanTables levelCount tree.levels)).filter
          fun entry => !entry.deleted).map
            fun entry => (entry.key, entry.value)).map Prod.fst).count key =
      tree.valueCount levelCount key := by
  have one : ∀ memtable : Memtable,
      ((LsmTree.liveEntries memtable.getAllEntries).map Prod.fst).count key =
        if (memtable.data[key]?).any (!·.isNull) then 1 else 0 := by
    intro memtable
    have nodup : ((LsmTree.liveEntries memtable.getAllEntries).map
        Prod.fst).Nodup := by
      rw [LsmTree.liveEntries, List.map_map]
      exact List.pairwise_map.mpr
        ((memtable.ascending.filter _).imp fun less => less.ne)
    rw [List.Nodup.count nodup]
    apply if_congr _ rfl rfl
    rw [List.mem_map]
    constructor
    · intro held
      obtain ⟨item, member, rfl⟩ := held
      have spec := mem_liveEntries.mp member
      rw [spec.1, Option.any_some, spec.2]
      rfl
    · intro held
      cases found : memtable.data[key]? with
      | none => simp [found] at held
      | some value =>
          rw [found, Option.any_some, Bool.not_eq_true'] at held
          exact ⟨(key, value), mem_liveEntries.mpr ⟨found, held⟩, rfl⟩
  have memtables : ∀ memtables : List Memtable,
      ((memtables.flatMap fun memtable =>
          LsmTree.liveEntries memtable.getAllEntries).map Prod.fst).count
            key =
        memtables.countP fun memtable =>
          (memtable.data[key]?).any (!·.isNull) := by
    intro memtables
    induction memtables with
    | nil => rfl
    | cons memtable rest inductionHypothesis =>
        rw [List.flatMap_cons, List.map_append, List.count_append, one,
          inductionHypothesis, List.countP_cons]
        exact Nat.add_comm ..
  rw [List.map_append, List.count_append, memtables, LsmTree.valueCount]
  congr 1
  rw [List.map_map, List.count, List.countP_map, List.countP_filter]
  apply List.countP_congr
  intro entry _
  simp

/-- Exactly one pair of a key and its value for each live key. -/
def ListsEach (value : String → Option Value)
    (items : List (String × Value)) : Prop :=
  (items.map Prod.fst).Nodup ∧
    ∀ key found, (key, found) ∈ items ↔ value key = some found

theorem mem_scanAll (levelCount : Nat) {key : String} {value : Value} :
    (key, value) ∈ (((tree.active :: tree.immutables).flatMap fun memtable =>
          LsmTree.liveEntries memtable.getAllEntries) ++
        ((allEntries (LsmTree.scanTables levelCount tree.levels)).filter
          fun entry => !entry.deleted).map
            fun entry => (entry.key, entry.value)) ↔
      (∃ memtable ∈ tree.active :: tree.immutables,
        memtable.data[key]? = some value ∧ value.isNull = false) ∨
      ∃ entry ∈ allEntries (LsmTree.scanTables levelCount tree.levels),
        entry.key = key ∧ entry.deleted = false ∧ entry.value = value := by
  rw [List.mem_append, List.mem_flatMap, List.mem_map]
  apply or_congr
  · simp only [mem_liveEntries]
  · apply exists_congr
    intro entry
    rw [List.mem_filter, Prod.mk.injEq, Bool.not_eq_true']
    constructor
    · intro held
      exact ⟨held.1.1, held.2.1, held.1.2, held.2.2⟩
    · intro held
      exact ⟨⟨held.1, held.2.2.1⟩, held.2.1, held.2.2.2⟩

/-- The scan of everything is right exactly when each key is held with a
value once at most, and not at all when it was deleted last. -/
theorem scanAll_correct_iff (invariant : tree.Invariant config) :
    (∃ items, tree.scanAll .none config.levelCount = .ok items ∧
      ListsEach (tree.get config.levelCount) items) ↔
      ∀ key, tree.valueCount config.levelCount key ≤ 1 ∧
        (tree.LastDeleted config.levelCount key →
          tree.valueCount config.levelCount key = 0) := by
  rw [scanAll_eq]
  constructor
  · intro correct key
    obtain ⟨items, success, nodup, lists⟩ := correct
    rw [Except.ok.injEq] at success
    rw [← count_scanAll, success]
    refine ⟨List.nodup_iff_count_le_one.mp nodup key, fun deleted => ?_⟩
    rw [List.count_eq_zero]
    intro listed
    obtain ⟨item, member, same⟩ := List.mem_map.mp listed
    have shown := (lists item.1 item.2).mp member
    rw [same, deleted.get invariant] at shown
    exact absurd shown (by simp)
  · intro once
    refine ⟨_, rfl, ?_, ?_⟩
    · apply List.nodup_iff_count_le_one.mpr
      intro key
      rw [count_scanAll]
      exact (once key).1
    · intro key value
      constructor
      · intro member
        have listed := List.mem_map_of_mem (f := Prod.fst) member
        have some := List.count_pos_iff.mpr listed
        rw [count_scanAll] at some
        have kept : ¬ tree.LastDeleted config.levelCount key := by
          intro deleted
          have nothing := (once key).2 deleted
          simp only [nothing, lt_irrefl] at some
        have held : tree.MemtableHolds key ∨
            tree.TableHolds config.levelCount key := by
          rcases (mem_scanAll _).mp member with inMemtable | inTable
          · left
            obtain ⟨memtable, inside, here⟩ := inMemtable
            exact ⟨memtable, inside, value, here⟩
          · right
            obtain ⟨entry, inside, same, -⟩ := inTable
            exact ⟨entry, inside, same⟩
        have shown := invariant.get_of_held held kept
        obtain ⟨found, read⟩ := Option.isSome_iff_exists.mp shown
        have also := (mem_scanAll config.levelCount).mpr
          (invariant.held_of_get read)
        have nodup : ((((tree.active :: tree.immutables).flatMap
            fun memtable => LsmTree.liveEntries memtable.getAllEntries) ++
              ((allEntries (LsmTree.scanTables config.levelCount
                tree.levels)).filter fun entry => !entry.deleted).map
                  fun entry => (entry.key, entry.value)).map
                    Prod.fst).Nodup := by
          apply List.nodup_iff_count_le_one.mpr
          intro other
          rw [count_scanAll]
          exact (once other).1
        have same := List.inj_on_of_nodup_map nodup also member rfl
        rw [read, (Prod.mk.inj same).2]
      · intro read
        exact (mem_scanAll _).mpr (invariant.held_of_get read)

end

/-- In every state of a run, the key scans list exactly the live keys that
they were asked for when no such key was deleted last and is still held: in a
memtable with a value or in a table at all, for a range in a table with a
value.  The scan of everything lists each live key once when each key is held
with a value once at most, and not at all when it was deleted last. -/
theorem key_scans_agree_iff
    (config : CompactionConfig) (tree : LsmTree)
    (run : ManualRun config tree) :
    (∀ keyPrefix,
      (∃ keys, tree.scanPrefix .records config.levelCount keyPrefix =
          .ok keys ∧
        ListsKeys (fun key => startsWith key keyPrefix = true ∧
          (tree.getChecked config.levelCount key).isSome = true) keys) ↔
        ∀ key, startsWith key keyPrefix = true →
          tree.LastDeleted config.levelCount key →
            ¬ (tree.MemtableHolds key ∨
              tree.TableHolds config.levelCount key)) ∧
    ((∃ keys, tree.keys .records config.levelCount = .ok keys ∧
        ListsKeys (fun key =>
          (tree.getChecked config.levelCount key).isSome = true) keys) ↔
      ∀ key, tree.LastDeleted config.levelCount key →
        ¬ (tree.MemtableHolds key ∨
          tree.TableHolds config.levelCount key)) ∧
    (∀ start rangeEnd, start ≤ rangeEnd →
      ((∃ keys, tree.scanRange .records config.levelCount start rangeEnd =
          .ok keys ∧
        ListsKeys (fun key => inRange start rangeEnd key = true ∧
          (tree.getChecked config.levelCount key).isSome = true) keys) ↔
        ∀ key, inRange start rangeEnd key = true →
          tree.LastDeleted config.levelCount key →
            ¬ (tree.MemtableHolds key ∨
              tree.TableHoldsLive config.levelCount key))) ∧
    ((∃ items, tree.scanAll .records config.levelCount = .ok items ∧
        ListsEach (tree.getChecked config.levelCount) items) ↔
      ∀ key, tree.valueCount config.levelCount key ≤ 1 ∧
        (tree.LastDeleted config.levelCount key →
          tree.valueCount config.levelCount key = 0)) := by
  have invariant := run.invariant
  have readsBack := run.readsBack.tables
  have reads : tree.getChecked config.levelCount =
      tree.get config.levelCount :=
    funext (LsmTree.getChecked_eq readsBack config.levelCount)
  simp only [reads, LsmTree.keys, LsmTree.scanPrefix_records,
    LsmTree.scanRange_records readsBack, LsmTree.scanAll_records readsBack]
  have live := fun (key : String) => @invariant.holdsLive_of_get _ _ key
  have prefixed := fun keyPrefix =>
    (listsKeys_correct_iff (scanPrefix_listsKeys invariant keyPrefix)).trans
      (invariant.listed_iff_live
        (fun key shown => (live key shown).imp_right
          LsmTree.TableHoldsLive.tableHolds)
        (fun key held => held))
  refine ⟨prefixed, ?_, ?_, scanAll_correct_iff invariant⟩
  · have all := prefixed ""
    simp only [startsWith_empty, true_and, forall_const] at all
    exact all
  · intro start rangeEnd ordered
    apply (listsKeys_correct_iff
      (scanRange_listsKeys invariant ordered)).trans
    apply invariant.listed_iff_live
    · exact live
    · exact fun key held => held.imp_right LsmTree.TableHoldsLive.tableHolds

theorem twoTables_keys_correct :
    ∃ keys, twoTables.keys .records 7 = .ok keys ∧
      ListsKeys (fun key => (twoTables.getChecked 7 key).isSome = true) keys := by
  apply ((key_scans_agree_iff leveledConfig twoTables
    twoTables_run).2.1).mpr
  intro key deleted
  have live : ∀ entry ∈ allEntries (LsmTree.scanTables 7 twoTables.levels),
      entry.deleted = false := by decide
  have noMemtable : memtableValue (twoTables.active :: twoTables.immutables)
      key = none := by
    change memtableValue [Memtable.new] key = none
    rw [memtableValue_cons, Memtable.new_get]
    rfl
  simp only [LsmTree.LastDeleted, noMemtable] at deleted
  obtain ⟨entry, newest, gone⟩ := deleted
  have distinct := twoTables_run.invariant.scanTables_distinct
  have member := ((latest_eq_some_iff distinct).mp newest).1.1
  rw [live entry member] at gone
  exact absurd gone (by simp)

/-- `k` flushed and then deleted. -/
def deletedOverTable : LsmTree :=
  twoTables.delete leveledConfig.jsonLen "k"

/-- All key scans still list the deleted key. -/
theorem key_scans_list_deleted_key :
    ManualRun leveledConfig deletedOverTable ∧
      deletedOverTable.getChecked 7 "k" = none ∧
      deletedOverTable.scanPrefix .records 7 "k" = .ok ["k"] ∧
      deletedOverTable.keys .records 7 = .ok ["a", "k"] ∧
      deletedOverTable.scanRange .records 7 "k" "k" = .ok ["k"] ∧
      deletedOverTable.scanAll .records 7 =
        .ok [("k", .bool true), ("a", .bool true)] :=
  ⟨twoTables_run.delete "k" ⟨rfl, by decide⟩, rfl, rfl, rfl, rfl, rfl⟩

end F4kvsLsm
