import F4kvsLsm.Compaction.Manual
import F4kvsLsm.Engine.CheckedScans

/-!
# Scans beside reads

A read takes the oldest parked memtable and the newest version in the tables;
a value scan takes the youngest parked memtable and the last version in the
order of the tables.  A value scan is therefore right exactly when these
differences do not show.
-/

namespace F4kvsLsm

open KeyOrder Overlay Versions

namespace LsmTree

/-- Where a scan and a read take a key from different places they find the
same: in the youngest and the oldest parked memtable that hold it, or in the
last and the newest version in the tables. -/
structure ScanOrderAgrees (levelCount : Nat) (tree : LsmTree) (key : String) :
    Prop where
  parked : tree.active.data[key]? = none →
    ∀ oldest youngest, memtableValue tree.immutables key = some oldest →
      memtableValue tree.immutables.reverse key = some youngest →
      youngest.visible = oldest.visible
  tables : memtableValue (tree.active :: tree.immutables) key = none →
    (lastVersion (allEntries (scanTables levelCount tree.levels)) key).bind
        SSTableEntry.visible =
      (latest (allEntries (scanTables levelCount tree.levels)) key).bind
        SSTableEntry.visible

/-- A memtable has keys, so that it refuses a reversed range. -/
def HoldsMemtableKeys (tree : LsmTree) : Prop :=
  ∃ memtable ∈ tree.active :: tree.immutables, memtable.entryCount > 0

end LsmTree

section

variable {config : CompactionConfig} {tree : LsmTree}

/-! ## The tables of a quiescent engine -/

theorem LsmTree.Invariant.scanTables_wellFormed
    (invariant : tree.Invariant config) (levelCount : Nat) :
    ∀ table ∈ LsmTree.scanTables levelCount tree.levels,
      table.WellFormed := by
  intro table member
  obtain ⟨level, -, inLevel⟩ := List.mem_flatMap.mp member
  exact wellFormed_of_levels invariant.level0 invariant.level1
    invariant.above level table inLevel

theorem LsmTree.Invariant.scanTables_eq
    (invariant : tree.Invariant config) (levels : 0 < config.levelCount) :
    LsmTree.scanTables config.levelCount tree.levels =
      tree.levels 0 ++ tree.levels 1 := by
  have deep : ∀ count, (List.range count).flatMap
      (fun level => tree.levels (level + 2)) = [] := by
    intro count
    apply List.flatMap_eq_nil_iff.mpr
    exact fun level _ => invariant.above level
  have split : ∀ count, List.range (count + 1) =
      0 :: (List.range count).map Nat.succ := fun _ => List.range_succ_eq_map
  cases count : config.levelCount with
  | zero => omega
  | succ count' =>
      rw [LsmTree.scanTables, split, List.flatMap_cons, List.flatMap_map]
      cases count' with
      | zero =>
          rw [invariant.single (by omega)]
          rfl
      | succ below =>
          rw [split, List.flatMap_cons, List.flatMap_map]
          exact congrArg (tree.levels 0 ++ ·) (by rw [deep below]; simp)

/-- A read shows the newest of all versions in the tables. -/
theorem LsmTree.Invariant.getFromSstables_latest
    (invariant : tree.Invariant config) (key : String) :
    getFromSstables config.levelCount tree.levels key =
      (latest (allEntries (LsmTree.scanTables config.levelCount
        tree.levels)) key).bind SSTableEntry.visible := by
  by_cases levels : 0 < config.levelCount
  · have count : config.levelCount = config.levelCount - 1 + 1 := by omega
    rw [invariant.scanTables_eq levels, invariant.getFromSstables_eq count,
      ← invariant.newestVersion_eq]
    rfl
  · have none : config.levelCount = 0 := by omega
    rw [none]
    rfl

theorem LsmTree.Invariant.scanTables_distinct
    (invariant : tree.Invariant config) :
    DistinctVersions (allEntries
      (LsmTree.scanTables config.levelCount tree.levels)) := by
  by_cases levels : 0 < config.levelCount
  · rw [invariant.scanTables_eq levels]
    exact invariant.distinctBoth
  · have none : config.levelCount = 0 := by omega
    rw [none]
    exact fun _ member => absurd member List.not_mem_nil

/-! ## Value scans -/

theorem memtableValue_reverse_eq_none_iff
    {memtables : List Memtable} {key : String} :
    memtableValue memtables.reverse key = none ↔
      memtableValue memtables key = none := by
  simp [memtableValue]

/-- An overlay and a read that take a key of no memtable from different places
show the same exactly when these agree, and the parked memtables do. -/
theorem overlay_agrees_iff {key : String} {scanned read : Option Value} :
    (match memtableValue (tree.active :: tree.immutables.reverse) key with
      | some value => value.visible
      | none => scanned) =
      (match memtableValue (tree.active :: tree.immutables) key with
      | some value => value.visible
      | none => read) ↔
    (tree.active.data[key]? = none →
      ∀ oldest youngest, memtableValue tree.immutables key = some oldest →
        memtableValue tree.immutables.reverse key = some youngest →
        youngest.visible = oldest.visible) ∧
      (memtableValue (tree.active :: tree.immutables) key = none →
        scanned = read) := by
  rw [memtableValue_cons, memtableValue_cons]
  cases held : tree.active.data[key]? with
  | some value => simp
  | none =>
      simp only [Option.none_or, forall_true_left]
      cases oldest : memtableValue tree.immutables key with
      | none =>
          rw [memtableValue_reverse_eq_none_iff.mpr oldest]
          simp
      | some value =>
          cases youngest : memtableValue tree.immutables.reverse key with
          | none =>
              rw [memtableValue_reverse_eq_none_iff.mp youngest] at oldest
              exact absurd oldest (by simp)
          | some other => simp

/-- The overlay shows what a read shows exactly when the orders agree. -/
theorem LsmTree.Invariant.overlaid_eq_get_iff
    (invariant : tree.Invariant config) (key : String) :
    tree.overlaid .none config.levelCount key =
        tree.get config.levelCount key ↔
      tree.ScanOrderAgrees config.levelCount key := by
  rw [LsmTree.overlaid_eq (invariant.scanTables_wellFormed _),
    LsmTree.get_eq, readableEntries_none, invariant.getFromSstables_latest]
  apply overlay_agrees_iff.trans
  constructor
  · exact fun agrees => ⟨agrees.1, agrees.2⟩
  · exact fun agrees => ⟨agrees.parked, agrees.tables⟩

/-- A scan that lists what the overlay shows lists what reads show exactly
when the orders agree; `keyOf` gives the keys their full names. -/
theorem scan_correct_iff
    (invariant : tree.Invariant config) {wanted : String → Prop}
    (keyOf : String → String)
    {result : Except ScanFailure (List (String × Value))}
    (scanned : ∃ items, result = .ok items ∧
      Listing wanted (fun key => tree.overlaid .none config.levelCount
        (keyOf key)) items) :
    (∃ items, result = .ok items ∧ Listing wanted
        (fun key => tree.get config.levelCount (keyOf key)) items) ↔
      ∀ key, wanted key →
        tree.ScanOrderAgrees config.levelCount (keyOf key) := by
  obtain ⟨items, success, listing⟩ := scanned
  have agree : Listing wanted (fun key => tree.get config.levelCount
      (keyOf key)) items ↔ _ := listing.iff_agree
  simp only [invariant.overlaid_eq_get_iff] at agree
  rw [← agree]
  constructor
  · intro correct
    obtain ⟨items', success', listing'⟩ := correct
    rw [success, Except.ok.injEq] at success'
    rw [success']
    exact listing'
  · intro listed
    exact ⟨items, success, listed⟩

theorem scanPrefixWithValues_listing
    (invariant : tree.Invariant config) (keyPrefix : String) :
    ∃ items, tree.scanPrefixWithValues .none config.levelCount keyPrefix =
        .ok items ∧
      Listing (fun key => startsWith key keyPrefix = true)
        (tree.overlaid .none config.levelCount) items :=
  LsmTree.scanPrefixWithValues_listing (invariant.scanTables_wellFormed _)
    (fun _ _ => ⟨rfl, rfl⟩) keyPrefix

theorem scanRangeWithValues_listing
    (invariant : tree.Invariant config) {start rangeEnd : String}
    (accepted : ¬ (rangeReversed start rangeEnd = true ∧
      tree.HoldsMemtableKeys)) :
    ∃ items, tree.scanRangeWithValues .none config.levelCount start
        rangeEnd = .ok items ∧
      Listing (fun key => inRange start rangeEnd key = true)
        (tree.overlaid .none config.levelCount) items := by
  apply LsmTree.scanRangeWithValues_listing
    (invariant.scanTables_wellFormed _) fun _ _ => ⟨rfl, rfl⟩
  intro memtable member refused
  exact accepted ⟨refused.2, memtable, member, refused.1⟩

/-- A memtable that refuses a reversed range fails the scan: with a panic, or
before with the error of a table. -/
theorem scanRangeWithValues_refused
    (levelCount : Nat) (faults : ReadFaults) {start rangeEnd : String}
    (reversed : rangeReversed start rangeEnd = true)
    (holds : tree.HoldsMemtableKeys) :
    ∃ failure, ((∃ table ∈ LsmTree.scanTables levelCount tree.levels,
          table.scanRangeLayer faults start rangeEnd = .error failure) ∨
        failure = .panicked) ∧
      tree.scanRangeWithValues faults levelCount start rangeEnd =
        .error failure := by
  rcases holds with ⟨memtable, member, nonempty⟩
  have refused : memtable.scanRangeLayer start rangeEnd =
      .error .panicked := by
    rw [Memtable.scanRangeLayer_eq, if_pos ⟨nonempty, reversed⟩]
  rcases LsmTree.mergeScan_error_memtable
    (·.scanRangeLayer faults start rangeEnd)
    (·.scanRangeLayer start rangeEnd) member refused with
    ⟨failure, fromTable | fromMemtable, stopped⟩
  · exact ⟨failure, Or.inl fromTable, stopped⟩
  · rcases fromMemtable with ⟨other, -, origin⟩
    rw [Memtable.scanRangeLayer_eq] at origin
    split at origin
    · exact ⟨failure, Or.inr (Except.error.inj origin).symm, stopped⟩
    · exact absurd origin (by simp)

theorem itemsWithoutFront_listing
    {family front : String} {value : String → Option Value}
    {items : List (String × Value)}
    (listing : Listing
      (fun key => startsWith key (familyKey family front) = true)
      value items) :
    Listing (fun _ => True)
      (fun rest => value (familyKey family (front ++ rest)))
      (itemsWithoutFront (familyKey family front) items) := by
  have starts : ∀ item ∈ items,
      startsWith item.1 (familyKey family front) = true :=
    fun item member => ((listing.mem_iff item.1 item.2).mp member).1
  rw [itemsWithoutFront_eq_map starts]
  constructor
  · apply List.pairwise_map.mpr
    apply listing.ascending.imp_of_mem
    intro first second firstMember secondMember less
    exact dropFront_lt_dropFront (starts first firstMember)
      (starts second secondMember) less
  · intro rest shown
    rw [List.mem_map]
    constructor
    · rintro ⟨item, member, same⟩
      rcases exists_familyKey (starts item member) with ⟨rest', whole⟩
      rw [whole, dropFront_familyKey, Prod.mk.injEq] at same
      rw [← same.1, ← same.2, ← whole]
      exact ⟨trivial, ((listing.mem_iff item.1 item.2).mp member).2⟩
    · rintro ⟨-, shows⟩
      refine ⟨(familyKey family (front ++ rest), shown), ?_, ?_⟩
      · exact (listing.mem_iff _ _).mpr
          ⟨startsWith_familyKey family front rest, shows⟩
      · rw [dropFront_familyKey]

theorem scanAllCf_listing
    (invariant : tree.Invariant config) {families : List String}
    {family : String} (created : family ∈ families) :
    ∃ items, tree.scanAllCf .none config.levelCount families family =
        .ok items ∧
      Listing (fun _ => True) (fun key => tree.overlaid .none
        config.levelCount (familyKey family key)) items := by
  have scanned := scanPrefixWithValues_listing invariant (family ++ "#")
  rcases scanned with ⟨items, success, listing⟩
  rw [← familyKey_empty] at listing
  have listed := itemsWithoutFront_listing listing
  simp only [familyKey_empty, String.empty_append] at listed
  refine ⟨_, ?_, listed⟩
  rw [LsmTree.scanAllCf, checkFamily, if_pos created, ok_bind, success,
    ok_bind]
  rfl

end

/-- In every state of a run, a value scan lists the live keys that it was
asked for, each with the value of a read, exactly when for each of these keys
the order of the scan and the order of reads agree, and for a range also that
no memtable refuses it. -/
theorem value_scans_agree_iff
    (config : CompactionConfig) (tree : LsmTree)
    (run : ManualRun config tree) :
    (∀ keyPrefix,
      (∃ items, tree.scanPrefixWithValues .records config.levelCount keyPrefix =
          .ok items ∧
        Listing (fun key => startsWith key keyPrefix = true)
          (tree.getChecked config.levelCount) items) ↔
        ∀ key, startsWith key keyPrefix = true →
          tree.ScanOrderAgrees config.levelCount key) ∧
    (∀ start rangeEnd,
      (∃ items, tree.scanRangeWithValues .records config.levelCount start
          rangeEnd = .ok items ∧
        Listing (fun key => inRange start rangeEnd key = true)
          (tree.getChecked config.levelCount) items) ↔
        ¬ (rangeReversed start rangeEnd = true ∧ tree.HoldsMemtableKeys) ∧
          ∀ key, inRange start rangeEnd key = true →
            tree.ScanOrderAgrees config.levelCount key) ∧
    ∀ families family, family ∈ families →
      ((∃ items, tree.scanAllCf .records config.levelCount families family =
          .ok items ∧
        Listing (fun _ => True) (fun key => tree.getChecked config.levelCount
          (familyKey family key)) items) ↔
        ∀ key, tree.ScanOrderAgrees config.levelCount
          (familyKey family key)) := by
  have invariant := run.invariant
  have readsBack := run.readsBack.tables
  have reads : tree.getChecked config.levelCount =
      tree.get config.levelCount :=
    funext (LsmTree.getChecked_eq readsBack config.levelCount)
  simp only [reads, LsmTree.scanPrefixWithValues_records readsBack,
    LsmTree.scanRangeWithValues_records readsBack,
    LsmTree.scanAllCf_records readsBack]
  refine ⟨fun keyPrefix => ?_, fun start rangeEnd => ?_,
    fun families family created => ?_⟩
  · exact scan_correct_iff invariant id
      (scanPrefixWithValues_listing invariant keyPrefix)
  · by_cases refused : rangeReversed start rangeEnd = true ∧
        tree.HoldsMemtableKeys
    · have failed := scanRangeWithValues_refused config.levelCount .none
        refused.1 refused.2
      obtain ⟨failure, -, stopped⟩ := failed
      rw [stopped]
      constructor
      · intro correct
        obtain ⟨items, success, -⟩ := correct
        exact absurd success (by simp)
      · intro accepted
        exact absurd refused accepted.1
    · have accepted := scan_correct_iff invariant id
        (scanRangeWithValues_listing invariant refused)
      apply accepted.trans
      exact ⟨fun agrees => ⟨refused, agrees⟩, fun agrees => agrees.2⟩
  · rw [scan_correct_iff invariant (familyKey family)
      (scanAllCf_listing invariant created)]
    exact ⟨fun agrees key => agrees key trivial, fun agrees key _ => agrees key⟩

theorem lastVersion_eq_latest
    {entries : List SSTableEntry} {key : String}
    (single : (entries.map (·.key)).Nodup) :
    lastVersion entries key = latest entries key := by
  have count : (versionsOf entries key).length ≤ 1 := by
    rw [versionsOf, ← List.countP_eq_length_filter]
    have once := List.nodup_iff_count_le_one.mp single key
    rw [List.count, List.countP_map] at once
    refine (List.countP_mono_left ?_).trans once
    intro entry _ same
    simpa using same
  rw [lastVersion, latest]
  cases found : versionsOf entries key with
  | nil => rfl
  | cons entry rest =>
      rw [found, List.length_cons] at count
      have alone : rest = [] := List.length_eq_zero_iff.mp (by omega)
      rw [alone]
      rfl

theorem twoTables_value_scan_agrees :
    ∃ items, twoTables.scanPrefixWithValues .records 7 "" = .ok items ∧
      Listing (fun key => startsWith key "" = true) (twoTables.getChecked 7)
        items := by
  apply ((value_scans_agree_iff leveledConfig twoTables
    twoTables_run).1 "").mpr
  intro key _
  constructor
  · intro _ oldest _ found
    have noneParked : twoTables.immutables = [] := rfl
    rw [noneParked] at found
    exact absurd found (by simp [memtableValue])
  · intro _
    have single : ((allEntries (LsmTree.scanTables 7 twoTables.levels)).map
        (·.key)).Nodup := by decide
    rw [show leveledConfig.levelCount = 7 from rfl,
      lastVersion_eq_latest single]

/-- Two tables, compacted, then `k` overwritten and flushed. -/
def overwrittenInLevel0 : LsmTree :=
  flushed ((twoTables.compactAll leveledConfig [] smallTable .done
    (outputFiles 10)).1.put leveledConfig.jsonLen "k" (.bool false))

theorem overwrittenInLevel0_run :
    ManualRun leveledConfig overwrittenInLevel0 := by
  apply ManualRun.flush
  apply ManualRun.put
  · apply twoTables_run.compactAll
    intro levels same
    rw [← Except.ok.inj same]
    decide
  · exact ⟨rfl, by decide⟩

/-- The scans show the value of level 1 below the overwrite. -/
theorem value_scan_is_stale :
    ManualRun leveledConfig overwrittenInLevel0 ∧
      overwrittenInLevel0.getChecked 7 "k" = some (.bool false) ∧
      overwrittenInLevel0.scanPrefixWithValues .records 7 "" =
        .ok [("a", .bool true), ("k", .bool true)] ∧
      overwrittenInLevel0.scanRangeWithValues .records 7 "a" "z" =
        .ok [("a", .bool true), ("k", .bool true)] :=
  ⟨overwrittenInLevel0_run, rfl, rfl, rfl⟩

end F4kvsLsm
