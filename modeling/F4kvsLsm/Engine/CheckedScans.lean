import F4kvsLsm.Lib.Fallible
import F4kvsLsm.Core.CheckedReads
import F4kvsLsm.Engine.ColumnFamilies

/-!
# Scans of tables that can be read

A scan leaves out the entries whose records it cannot read.  In tables whose
records can all be read it finds what is there.
-/

namespace F4kvsLsm

open Overlay

namespace SSTable.ReadsBack

variable {table : SSTable} (readsBack : table.ReadsBack)

include readsBack

theorem readEntries_records {entries : List SSTableEntry}
    (part : entries ⊆ table.entries) :
    table.readEntries .records entries = table.readEntries .none entries := by
  rw [SSTable.readEntries, SSTable.readEntries]
  congr 1
  apply List.filter_congr
  intro entry member
  exact congrArg Option.isNone
    (SSTableEntry.readFault_eq_none_iff.mpr (readsBack entry (part member)))

theorem scanPrefixLayer_records (keyPrefix : String) :
    table.scanPrefixLayer .records keyPrefix =
      table.scanPrefixLayer .none keyPrefix :=
  congrArg Except.ok (readsBack.readEntries_records
    ((List.takeWhile_sublist _).trans (List.drop_sublist ..)).subset)

theorem scanRangeLayer_records (start rangeEnd : String) :
    table.scanRangeLayer .records start rangeEnd =
      table.scanRangeLayer .none start rangeEnd :=
  congrArg Except.ok (readsBack.readEntries_records
    ((List.takeWhile_sublist _).trans (List.drop_sublist ..)).subset)

theorem scanRange_records (start rangeEnd : String) :
    table.scanRange .records start rangeEnd =
      table.scanRange .none start rangeEnd := by
  rw [SSTable.scanRange, SSTable.scanRange, readsBack.scanRangeLayer_records]

theorem scanAll_records :
    table.scanAll .records = table.scanAll .none :=
  congrArg Except.ok (readsBack.readEntries_records (List.Subset.refl _))

end SSTable.ReadsBack

namespace LsmTree

/-! ## Layers that answer alike -/

section

variable {first second :
    SSTable → Except ScanFailure (List (String × Value × Bool))}

theorem foldlM_applyLayer_congr {files : List SSTable}
    (same : ∀ table ∈ files, first table = second table)
    (merged : Std.TreeMap String Value) :
    files.foldlM (fun merged table => do
        return applyLayer merged (← first table)) merged =
      files.foldlM (fun merged table => do
        return applyLayer merged (← second table)) merged := by
  induction files generalizing merged with
  | nil => rfl
  | cons table rest inductionHypothesis =>
      rw [List.foldlM_cons, List.foldlM_cons, same table List.mem_cons_self]
      congr 1
      funext merged
      exact inductionHypothesis
        (fun other member => same other (List.mem_cons_of_mem _ member)) _

theorem mergeScan_congr
    {memtableLayer : Memtable →
      Except ScanFailure (List (String × Value × Bool))}
    {levelCount : Nat} {tree : LsmTree}
    (same : ∀ table ∈ scanTables levelCount tree.levels,
      first table = second table) :
    mergeScan first memtableLayer levelCount tree =
      mergeScan second memtableLayer levelCount tree := by
  rw [mergeScan, mergeScan, foldlM_applyLayer_congr same]

end

/-! ## The scans of the engine -/

section

variable {levelCount : Nat} {tree : LsmTree}
  (readsBack : ∀ level, ∀ table ∈ tree.levels level, table.ReadsBack)

include readsBack

theorem scanTables_readsBack :
    ∀ table ∈ scanTables levelCount tree.levels, table.ReadsBack := by
  intro table member
  obtain ⟨level, -, inLevel⟩ := List.mem_flatMap.mp member
  exact readsBack level table inLevel

theorem scanPrefixWithValues_records (keyPrefix : String) :
    tree.scanPrefixWithValues .records levelCount keyPrefix =
      tree.scanPrefixWithValues .none levelCount keyPrefix :=
  mergeScan_congr fun table member =>
    (scanTables_readsBack readsBack table member).scanPrefixLayer_records _

theorem scanRangeWithValues_records (start rangeEnd : String) :
    tree.scanRangeWithValues .records levelCount start rangeEnd =
      tree.scanRangeWithValues .none levelCount start rangeEnd :=
  mergeScan_congr fun table member =>
    (scanTables_readsBack readsBack table member).scanRangeLayer_records ..

theorem scanRange_records (start rangeEnd : String) :
    tree.scanRange .records levelCount start rangeEnd =
      tree.scanRange .none levelCount start rangeEnd := by
  rw [scanRange, scanRange, Fallible.mapM_congr fun table member =>
    (scanTables_readsBack readsBack table member).scanRange_records ..]

theorem scanAll_records :
    tree.scanAll .records levelCount = tree.scanAll .none levelCount := by
  rw [scanAll, scanAll, Fallible.mapM_congr fun table member =>
    (scanTables_readsBack readsBack table member).scanAll_records]

theorem scanAllCf_records (families : List String) (family : String) :
    tree.scanAllCf .records levelCount families family =
      tree.scanAllCf .none levelCount families family := by
  rw [scanAllCf, scanAllCf, scanPrefixWithValues_records readsBack]

theorem scanPrefixWithValuesCf_records
    (families : List String) (keyPrefix family : String) :
    tree.scanPrefixWithValuesCf .records levelCount families keyPrefix
        family =
      tree.scanPrefixWithValuesCf .none levelCount families keyPrefix
        family := by
  rw [scanPrefixWithValuesCf, scanPrefixWithValuesCf,
    scanPrefixWithValues_records readsBack]

end

theorem scanPrefix_records
    (levelCount : Nat) (tree : LsmTree) (keyPrefix : String) :
    tree.scanPrefix .records levelCount keyPrefix =
      tree.scanPrefix .none levelCount keyPrefix := rfl

theorem scanPrefixCf_records
    (levelCount : Nat) (families : List String) (tree : LsmTree)
    (keyPrefix family : String) :
    tree.scanPrefixCf .records levelCount families keyPrefix family =
      tree.scanPrefixCf .none levelCount families keyPrefix family := rfl

/-- `get_cf` -/
def getCfChecked (levelCount : Nat) (families : List String)
    (tree : LsmTree) (key family : String) :
    Except ScanFailure (Option Value) := do
  checkFamily families family
  return tree.getChecked levelCount (familyKey family key)

end LsmTree

end F4kvsLsm
