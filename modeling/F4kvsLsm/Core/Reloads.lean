import F4kvsLsm.Core.CheckedReads
import F4kvsLsm.Storage.TableRoundTrip

/-!
# Tables that a start opens again

A file that was written completely does not open when its boundary keys are
too long for the search for the metadata, or look like metadata themselves.
Such a file is left out by a start, although the flush that wrote it has
returned without an error.
-/

namespace F4kvsLsm

open ByteCodec TableFile

/-- A table with these boundary keys opens. -/
structure KeysOpen (smallest largest : String) : Prop where
  room : smallest.utf8ByteSize + largest.utf8ByteSize ≤ 1952
  clear : TableFile.SSTableMetadata.KeysClear
    (encodeStr smallest ++ encodeStr largest)

/-- A key with which a table can begin or end. -/
structure CleanKey (key : String) : Prop where
  clear : 0 ∉ strBytes key
  small : key.utf8ByteSize ≤ 976

theorem CleanKey.keysOpen {smallest largest : String}
    (clean : CleanKey smallest) (clean' : CleanKey largest) :
    KeysOpen smallest largest := by
  have small := clean.small
  have small' := clean'.small
  exact ⟨by omega, TableFile.SSTableMetadata.keysClear_of_no_zero clean.clear
    clean'.clear (by omega)⟩

/-- The file of the table opens, its index can be decoded, and so can its
records. -/
structure SSTable.Reloads (table : SSTable) : Prop where
  opens : KeysOpen table.smallestKey table.largestKey
  indexed : indexLength table.entries < 2 ^ 32
  readsBack : table.ReadsBack

/-- A flush of the memtable writes such a table. -/
structure Memtable.Reloads (m : Memtable) : Prop where
  opens : ∀ first ∈ m.getAllEntries.head?,
    ∀ last ∈ m.getAllEntries.getLast?, KeysOpen first.1 last.1
  indexed : (m.getAllEntries.map fun entry =>
    16 + entry.1.utf8ByteSize).sum < 2 ^ 32
  readsBack : m.ReadsBack

/-! ## The file -/

theorem ReadsBack.storable {entry : SSTableEntry}
    (readsBack : ReadsBack entry.key entry.value)
    (timestamp : entry.timestamp < 2 ^ 64) : entry.Storable where
  small := (entry.encode_length_eq 0 entry.value.isNull).symm.trans_le
    readsBack.small
  timestamp := timestamp
  notJson := readsBack.notJson

namespace TableFile.Consists

variable {compressVec : Bytes → Except String Bytes}
  {hash : String → Nat → Nat} {written : WrittenTable} {table : SSTable}
  {writer : BlockWriter} {indexData : Bytes}
  (parts : Consists compressVec hash table.entries written writer indexData)

include parts

theorem smallestKey_eq : written.metadata.smallestKey = table.smallestKey := by
  obtain ⟨first, head, smallest⟩ := parts.smallest
  rw [smallest, SSTable.smallestKey, head]

theorem largestKey_eq : written.metadata.largestKey = table.largestKey := by
  obtain ⟨last, tail, largest⟩ := parts.largest
  rw [largest, SSTable.largestKey, tail]

end TableFile.Consists

/-- What is written for such a table opens with its own metadata and loads
its own index. -/
theorem SSTable.Reloads.opens_again {table : SSTable}
    (reloads : table.Reloads) (wellFormed : table.WellFormed)
    (stamps : ∀ entry ∈ table.entries, entry.timestamp < 2 ^ 64)
    {compressVec decompressVec : Bytes → Except String Bytes}
    (isSnappy : IsSnappy compressVec decompressVec)
    {hash : String → Nat → Nat} {level createdAt : UInt64}
    {written : WrittenTable}
    (wrote : writeEntries compressVec hash level createdAt table.entries =
      .ok (some written))
    (short : written.file.length < 2 ^ 63) :
    tryReadMetadata written.file = .ok ⟨written.metadata, true⟩ ∧
      ∀ path, OpenedTable.ensureIndexLoaded decompressVec
        ⟨written.metadata, true⟩ path written.file = .ok written.index := by
  obtain ⟨writer, indexData, parts⟩ := writeEntries_consists wrote
  have room := reloads.opens.room
  have clear := reloads.opens.clear
  rw [← parts.smallestKey_eq, ← parts.largestKey_eq] at room clear
  have sound : Sound compressVec decompressVec hash table.entries written
      writer indexData :=
    { parts with
      isSnappy := isSnappy
      storable := fun entry member =>
        (reloads.readsBack entry member).storable (stamps entry member)
      ascending := wellFormed.sorted
      small := reloads.indexed
      short := short }
  exact ⟨(parts.tryReadMetadata_eq_ok_iff short room).mpr clear,
    sound.ensureIndexLoaded⟩

/-! ## Flushes -/

theorem indexLength_stampEntries (first : Nat) (memtable : Memtable) :
    indexLength (LsmTree.stampEntries first memtable.getAllEntries) =
      (memtable.getAllEntries.map fun entry =>
        16 + entry.1.utf8ByteSize).sum := by
  rw [LsmTree.stampEntries_eq memtable.getAllEntries_sorted, indexLength]
  congr 1
  refine List.ext_getElem (by simp) fun i bound bound' => ?_
  rw [List.getElem_map, List.getElem_map, List.getElem_mapIdx]

theorem Memtable.Reloads.flushedTable {tree : LsmTree}
    (reloads : tree.active.Reloads)
    (nonempty : tree.active.entryCount > 0)
    (existing : List SstableName) (info : TableInfo) :
    (LsmTree.flushedTable existing info tree).Reloads := by
  rw [gt_iff_lt, ← tree.active.getAllEntries_length, List.length_pos_iff]
    at nonempty
  constructor
  case opens =>
    have keys := reloads.opens _ (List.head?_eq_some_head nonempty) _
      (List.getLast?_eq_some_getLast nonempty)
    rw [SSTable.smallestKey, SSTable.largestKey, LsmTree.flushedTable,
      LsmTree.stampEntries_eq tree.active.getAllEntries_sorted,
      List.head?_mapIdx, List.getLast?_mapIdx,
      List.head?_eq_some_head nonempty, List.getLast?_eq_some_getLast nonempty]
    exact keys
  case indexed =>
    rw [LsmTree.flushedTable, indexLength_stampEntries]
    exact reloads.indexed
  case readsBack =>
    intro entry member
    exact reloads.readsBack _ _ (LsmTree.mem_flushedTable member).1

/-- Clean keys are more than a flush needs. -/
theorem Memtable.Reloads.of_clean {m : Memtable} (readsBack : m.ReadsBack)
    (clean : ∀ entry ∈ m.getAllEntries, CleanKey entry.1)
    (indexed : (m.getAllEntries.map fun entry =>
      16 + entry.1.utf8ByteSize).sum < 2 ^ 32) : m.Reloads where
  opens := fun first head last tail =>
    (clean first (List.mem_of_mem_head? head)).keysOpen
      (clean last (List.mem_of_mem_getLast? tail))
  indexed := indexed
  readsBack := readsBack

theorem Memtable.new_reloads : Memtable.new.Reloads where
  opens := by
    intro first head
    cases head
  indexed := by decide
  readsBack := Memtable.new_readsBack

end F4kvsLsm
