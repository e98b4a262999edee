import F4kvsLsm.Core.Reloads
import F4kvsLsm.Engine.Store

/-!
# Tables of the live map

A handle in the live map was written or loaded from a file that holds the
entries of a list.  Lookups, the read of all entries, and the checks of a
flush and of a compaction find in it what the list says.
-/

namespace F4kvsLsm

open ByteCodec KeyOrder TableFile Versions

/-- Entries that come back from a table that is opened again. -/
structure Keepable (entries : List SSTableEntry) : Prop where
  storable : ∀ entry ∈ entries, entry.Storable
  ascending : Ascending SSTableEntry.key entries
  small : indexLength entries < 2 ^ 32
  clean : ∀ entry ∈ entries, CleanKey entry.key

/-- A table of the live map on a file that was written completely. -/
structure LiveOn (config : StoreConfig) (name : SstableName)
    (entries : List SSTableEntry) (written : WrittenTable)
    (stored : StoredFile) (table : LiveTable) : Prop where
  intact : Intact config.compressVec config.hash name entries written stored
  fileName : table.fileName = stored.fileName
  metadata : table.metadata = written.metadata
  unmarked : table.handle.markedForDeletion = false
  noBlock : table.handle.decompressedBlock = none
  reads : ∀ blockCache,
    Intact.CacheFits config.compressVec blockCache table.handle →
      Handle config.compressVec entries written blockCache table.handle

/-- A table of the live map and the list of its entries. -/
def LiveOf (config : StoreConfig) (table : LiveTable) (list : SSTable) :
    Prop :=
  ∃ name entries written stored,
    LiveOn config name entries written stored table ∧
      list = asTable name entries written

section

variable {config : StoreConfig}
  (isSnappy : IsSnappy config.compressVec config.decompressVec)

/-! ## Tables that were written and tables that were loaded -/

/-- A clone has no last block, and it may be opened again. -/
theorem TableFile.Handle.cloned
    {compressVec : Bytes → Except String Bytes} {entries : List SSTableEntry}
    {written : WrittenTable} {table : SstableFile}
    (handle : Handle compressVec entries written none table) (fileOpen : Bool)
    (opens : (fileOpen || table.config.enableResilientHandling) = true) :
    Handle compressVec entries written none
      { table with decompressedBlock := none, fileOpen } where
  file := handle.file
  metadata := handle.metadata
  index := handle.index
  ready := handle.ready
  compressed := handle.compressed
  canOpen := opens
  filter := handle.filter
  held := fun _ _ _ none => by cases none

theorem TableFile.Consists.boundaryKeys {entries : List SSTableEntry}
    {written : WrittenTable} {writer : BlockWriter} {indexData : Bytes}
    (parts : Consists config.compressVec config.hash entries written writer
      indexData) (clean : ∀ entry ∈ entries, CleanKey entry.key) :
    CleanKey written.metadata.smallestKey ∧
      CleanKey written.metadata.largestKey := by
  obtain ⟨first, head, smallest⟩ := parts.smallest
  obtain ⟨last, tail, largest⟩ := parts.largest
  rw [smallest, largest]
  exact ⟨clean first (List.mem_of_mem_head? head),
    clean last (List.mem_of_mem_getLast? tail)⟩

include isSnappy in
theorem createSstable_liveOn
    (resilient : config.load.sstable.enableResilientHandling = true)
    {name : SstableName} (fits : name.Fits) {level createdAt : UInt64}
    {entries : List SSTableEntry} (keepable : Keepable entries)
    {table : LiveTable} {stored : StoredFile}
    (created : createSstable config name.fileName level createdAt entries =
      .ok (table, stored)) :
    ∃ written, LiveOn config name entries written stored table := by
  obtain ⟨wrote, writing, made⟩ := Fallible.bind_eq_ok_iff.mp created
  cases wrote with
  | none => cases made
  | some written =>
      dsimp only at made
      split at made
      · case isTrue short =>
          cases made
          obtain ⟨writer, indexData, parts⟩ := writeEntries_consists writing
          have sound : Sound config.compressVec config.decompressVec
              config.hash entries written writer indexData :=
            ⟨parts, isSnappy, keepable.storable, keepable.ascending,
              keepable.small, short⟩
          obtain ⟨cleanSmallest, cleanLargest⟩ :=
            parts.boundaryKeys keepable.clean
          have smallRoom := cleanSmallest.small
          have largeRoom := cleanLargest.small
          have few : entries.length * 10 < 2 ^ 32 := by
            have pairs :=
              PackedIndex.length_le_packed_length writer.indexPairs
            have small := keepable.small
            rw [packed_length sound.sameKeys, sound.sameKeys.length_eq]
              at pairs
            omega
          refine ⟨written, ?_, rfl, rfl, rfl, rfl, fun blockCache held => ?_⟩
          · exact
              { named := rfl, fits := fits, bytes := rfl
                wrote := ⟨level, createdAt, writing⟩
                storable := keepable.storable
                ascending := keepable.ascending, small := keepable.small
                room := by omega
                clear := SSTableMetadata.keysClear_of_no_zero
                  cleanSmallest.clear cleanLargest.clear (by omega) }
          · exact
              { file := rfl, metadata := rfl
                index := ⟨_, sound.index_holds, sound.index_holds.flat_eq⟩
                ready := rfl, compressed := rfl, canOpen := resilient
                filter := fun mightContain same entry member => by
                  cases same
                  rw [parts.filter]
                  exact filterOf_mightContain few member
                held := held }
      · cases made

include isSnappy in
theorem OpenedFrom.liveOf
    {fileOpen : Bool}
    (resilient : config.load.sstable.enableResilientHandling = true)
    {table : LoadedTable} {list : SSTable}
    (from' : OpenedFrom config.compressVec config.hash table list) :
    LiveOf config ⟨table.stored.fileName, table.opened.metadata,
      table.handle config.load config.decompressVec fileOpen⟩ list := by
  obtain ⟨name, entries, written, intact, opened, same⟩ := from'
  obtain ⟨writer, indexData, sound⟩ := intact.sound isSnappy
  refine ⟨name, entries, written, table.stored, ⟨intact, rfl, ?_, rfl, rfl,
    fun blockCache held => ?_⟩, same⟩
  · rw [opened]
    rfl
  · rw [opened] at held ⊢
    exact intact.handle sound (.inl resilient) held

/-! ## What a table of the live map says -/

variable {table : LiveTable} {list : SSTable}

namespace LiveOf

variable (live : LiveOf config table list)

include live

theorem fileName_eq : table.fileName = list.name.fileName := by
  obtain ⟨name, entries, written, stored, on, rfl⟩ := live
  rw [on.fileName, on.intact.named]
  rfl

theorem nothingHeld :
    Intact.CacheFits config.compressVec none table.handle := by
  obtain ⟨name, entries, written, stored, on, rfl⟩ := live
  intro offset block raw held
  rw [SstableFile.heldBlock, on.noBlock] at held
  cases held

theorem ready : table.handle.isReady = true ∧
    table.handle.markedForDeletion = false ∧
    table.handle.blockCompressed = true := by
  have nothing := live.nothingHeld
  obtain ⟨name, entries, written, stored, on, rfl⟩ := live
  have handle := on.reads none nothing
  exact ⟨handle.ready, on.unmarked, handle.compressed⟩

include isSnappy

theorem wellFormed : list.WellFormed := by
  obtain ⟨name, entries, written, stored, on, rfl⟩ := live
  obtain ⟨writer, indexData, sound⟩ := on.intact.sound isSnappy
  exact sound.wellFormed name

theorem boundaryKeys_eq :
    table.metadata.smallestKey = list.smallestKey ∧
      table.metadata.largestKey = list.largestKey := by
  obtain ⟨name, entries, written, stored, on, rfl⟩ := live
  obtain ⟨writer, indexData, sound⟩ := on.intact.sound isSnappy
  rw [on.metadata, sound.smallestKey_eq, sound.largestKey_eq]
  exact ⟨rfl, rfl⟩

/-- The lookups find what the list says. -/
theorem alike {blockCache : Option BlockCache}
    (fits : Intact.CacheFits config.compressVec blockCache table.handle) :
    Alike config.decompressVec blockCache table.handle list := by
  have keys := live.boundaryKeys_eq isSnappy
  obtain ⟨name, entries, written, stored, on, rfl⟩ := live
  obtain ⟨writer, indexData, sound⟩ := on.intact.sound isSnappy
  have handle := on.reads blockCache fits
  rw [on.metadata] at keys
  refine ⟨?_, ?_, fun key outside => ?_,
    fun key => (sound.lookups_answer handle name key).1,
    fun key => (sound.lookups_answer handle name key).2⟩
  · rw [handle.metadata]
    exact keys.1
  · rw [handle.metadata]
    exact keys.2
  · cases found : (asTable name entries written).lookup key with
    | none => rfl
    | some entry =>
        obtain ⟨member, rfl⟩ :=
          (sound.wellFormed name).lookup_eq_some_iff.mp found
        obtain ⟨pair, listed, leads⟩ := sound.exists_pair member
        have located := sound.located_eq handle member listed leads
        have may := (SstableFile.located_eq_some_iff.mp located).1
        rw [outside] at may
        cases may

theorem counts :
    table.indexSize = list.entries.length ∧
      table.metadata.entryCount.toNat = list.entries.length ∧
      table.metadata.fileSize.toNat = list.fileSize := by
  have nothing := live.nothingHeld
  obtain ⟨name, entries, written, stored, on, rfl⟩ := live
  obtain ⟨writer, indexData, sound⟩ := on.intact.sound isSnappy
  have few := sound.entries_length
  refine ⟨?_, ?_, ?_⟩
  · rw [LiveTable.indexSize, sound.index_eq (on.reads none nothing)]
    change (writer.indexPairs.map PackedIndex.toRecord).length = _
    rw [List.length_map]
    exact sound.sameKeys.length_eq
  · rw [on.metadata, sound.entryCount, toNat_ofNat_of_lt (by omega)]
    rfl
  · rw [on.metadata]
    rfl

/-- A table of the live map passes the check of a compaction. -/
theorem validForCompact : table.validForCompact = true := by
  obtain ⟨ready, unmarked, -⟩ := live.ready
  obtain ⟨index, count, size⟩ := live.counts isSnappy
  have formed := live.wellFormed isSnappy
  have sized := formed.sized
  have filled := List.length_pos_iff.mpr formed.nonempty
  rw [LiveTable.validForCompact, ready, unmarked, decide_eq_true_eq]
  refine ⟨rfl, Bool.false_ne_true, ?_, ?_, by omega, by omega⟩
  · rw [gt_iff_lt, UInt64.lt_iff_toNat_lt, size]
    exact sized
  · rw [gt_iff_lt, UInt64.lt_iff_toNat_lt, count]
    exact filled

theorem readEntriesSafe_eq :
    table.readEntriesSafe config = list.entries := by
  have nothing := live.nothingHeld
  obtain ⟨ready, unmarked, -⟩ := live.ready
  obtain ⟨-, -, size⟩ := live.counts isSnappy
  obtain ⟨name, entries, written, stored, on, rfl⟩ := live
  obtain ⟨writer, indexData, sound⟩ := on.intact.sound isSnappy
  have handle := on.reads none nothing
  have long : ¬ table.handle.file.length < table.metadata.fileSize.toNat := by
    rw [handle.file, on.metadata, sound.fileSize, sound.offset_toNat,
      sound.file_length]
    omega
  have whole : ∀ fileOpen, (fileOpen ||
      table.handle.config.enableResilientHandling) = true →
        ({ table.handle with
          decompressedBlock := none, fileOpen } :
            SstableFile).getAllEntries config.decompressVec = .ok entries :=
    fun fileOpen opens =>
      (sound.readsLike (handle.cloned fileOpen opens) name
        on.unmarked).getAllEntries
  have read : table.readEntries config = .ok entries := by
    rw [LiveTable.readEntries]
    cases isOpen : table.handle.fileOpen with
    | true =>
        rw [if_neg (fun closed => closed.1 rfl)]
        exact whole table.handle.fileOpen (by rw [isOpen, Bool.true_or])
    | false =>
        have opens : table.handle.ensureFileOpenSync = .ok () :=
          (SstableFile.ensureFileOpenSync_eq_ok_iff _).mpr handle.canOpen
        by_cases some : table.indexSize > 0
        · rw [if_pos ⟨Bool.false_ne_true, some⟩]
          change (do
            table.handle.ensureFileOpenSync
            ({ table.handle with
              decompressedBlock := none, fileOpen := true } :
                SstableFile).getAllEntries config.decompressVec) = _
          rw [opens]
          exact whole true (Bool.true_or _)
        · rw [if_neg (fun there => some there.2)]
          exact whole table.handle.fileOpen handle.canOpen
  rw [LiveTable.readEntriesSafe, ready, unmarked, if_neg long, read]
  rfl

theorem not_unreadable : table.unreadable config = false := by
  rw [LiveTable.unreadable, live.readEntriesSafe_eq isSnappy,
    (live.counts isSnappy).2.1]
  exact decide_eq_false (not_not.mpr rfl)

end LiveOf

end

end F4kvsLsm
