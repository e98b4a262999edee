import F4kvsLsm.Lib.Corresponding
import F4kvsLsm.Storage.Sstable
import F4kvsLsm.Storage.TableOpening

/-!
# A written table reads back

The index that was written is loaded again, every pair of it leads to its
entry, and so lookups, scans and the read of all entries on the file agree
with the list of entries that was written.
-/

namespace F4kvsLsm

open ByteCodec KeyOrder

/-- What the store relies on of the Snappy library. -/
structure IsSnappy (compressVec decompressVec : Bytes → Except String Bytes) :
    Prop where
  roundTrip : ∀ {raw comp}, compressVec raw = .ok comp →
    decompressVec comp = .ok raw
  bounded : ∀ {raw comp}, compressVec raw = .ok comp →
    comp.length ≤ 32 + raw.length + raw.length / 6
  nonempty : ∀ {raw comp}, compressVec raw = .ok comp → comp ≠ []

/-- An entry that comes back from a table: not too large, a sequence number of
64 bits, and no JSON document. -/
structure SSTableEntry.Storable (entry : SSTableEntry) : Prop where
  small : entry.encode.length ≤ maxFramedEntry
  timestamp : entry.timestamp < 2 ^ 64
  notJson : entry.value.isJson = false

theorem SSTableEntry.Storable.fits {entry : SSTableEntry}
    (storable : entry.Storable) : entry.Fits := by
  have bound := storable.small
  rw [maxFramedEntry, SSTableEntry.encode] at bound
  simp only [encodeU64, encodeStr, encodeByteVec, List.length_append,
    toLeBytes_length, strBytes_length] at bound
  refine ⟨by omega, ?_, storable.timestamp⟩
  cases value : entry.value with
  | string s =>
      rw [value] at bound
      simp only [Value.encode, encodeU32, encodeU64, encodeStr, encodeByteVec,
        List.length_append, toLeBytes_length, strBytes_length] at bound
      simp only [Value.Fits]
      omega
  | bytes b =>
      rw [value] at bound
      simp only [Value.encode, encodeU32, encodeU64, encodeByteVec,
        List.length_append, toLeBytes_length] at bound
      simp only [Value.Fits]
      omega
  | _ => trivial

namespace TableFile

/-- The size of the index records of some entries. -/
def indexLength (entries : List SSTableEntry) : Nat :=
  (entries.map fun entry => 16 + entry.key.utf8ByteSize).sum

variable {compressVec decompressVec : Bytes → Except String Bytes}
  {hash : String → Nat → Nat} {entries : List SSTableEntry} {written : WrittenTable}
  {writer : BlockWriter} {indexData : Bytes}

/-! ## The index -/

theorem packed_length {pairs : List IndexPair}
    (same : List.Forall₂ (fun (pair : IndexPair) (entry : SSTableEntry) =>
      pair.1 = entry.key) pairs entries) :
    (PackedIndex.packed pairs).length = indexLength entries := by
  induction same with
  | nil => rfl
  | cons here _ inductionHypothesis =>
      rw [PackedIndex.packed, List.flatMap_cons, List.length_append,
        PackedIndex.encodeRecord_length, here, strBytes_length]
      rw [indexLength, List.map_cons, List.sum_cons]
      exact congrArg _ inductionHypothesis

theorem ascending_pairs {pairs : List IndexPair}
    (same : List.Forall₂ (fun (pair : IndexPair) (entry : SSTableEntry) =>
      pair.1 = entry.key) pairs entries)
    (ascending : Ascending SSTableEntry.key entries) :
    Ascending Prod.fst pairs := by
  have keys : pairs.map Prod.fst = entries.map SSTableEntry.key := by
    induction same with
    | nil => rfl
    | cons here _ inductionHypothesis =>
        rw [List.map_cons, List.map_cons, here,
          inductionHypothesis (List.pairwise_cons.mp ascending).2]
  have sorted : (entries.map SSTableEntry.key).Pairwise (· < ·) :=
    List.pairwise_map.mpr ascending
  rw [← keys, List.pairwise_map] at sorted
  exact sorted

/-- The parts of a table whose entries can all be read back. -/
structure Sound (compressVec decompressVec : Bytes → Except String Bytes)
    (hash : String → Nat → Nat) (entries : List SSTableEntry)
    (written : WrittenTable)
    (writer : BlockWriter) (indexData : Bytes) : Prop
    extends Consists compressVec hash entries written writer indexData where
  isSnappy : IsSnappy compressVec decompressVec
  storable : ∀ entry ∈ entries, entry.Storable
  ascending : Ascending SSTableEntry.key entries
  small : indexLength entries < 2 ^ 32
  short : written.file.length < 2 ^ 63

namespace Sound

variable (sound : Sound compressVec decompressVec hash entries
  written writer indexData)

include sound

theorem holds : writer.Holds compressVec entries [] :=
  BlockWriter.writeBlocks_holds
    (fun entry member => (sound.storable entry member).small) sound.blocks

theorem sameKeys : List.Forall₂
    (fun (pair : IndexPair) (entry : SSTableEntry) => pair.1 = entry.key)
    writer.indexPairs entries :=
  sound.holds.index.imp fun _ _ leads => leads.1

theorem index_holds :
    written.index.Holds (writer.indexPairs.map PackedIndex.toRecord) := by
  rw [sound.index]
  apply PackedIndex.fromSorted_holds
  rw [packed_length sound.sameKeys]
  exact sound.small

theorem recOff_length : written.index.recOff.length = entries.length := by
  rw [sound.index, PackedIndex.fromSorted_eq, List.length_map,
    List.length_range]
  exact sound.sameKeys.length_eq

theorem entries_length : entries.length < 2 ^ 32 := by
  have pairs := PackedIndex.length_le_packed_length writer.indexPairs
  rw [packed_length sound.sameKeys, sound.sameKeys.length_eq] at pairs
  have small := sound.small
  omega

theorem file_length : written.file.length =
    writer.out.length + (indexData.length + 4) +
      (checksummed written.bloomFilter.toBytes).length +
        (checksummed written.metadata.encode).length := by
  rw [sound.file, List.length_append, List.length_append, List.length_append,
    checksummed_length indexData]

theorem offset_toNat : writer.offset.toNat = writer.out.length := by
  have short := sound.short
  rw [sound.file_length] at short
  rw [sound.holds.offset, toNat_ofNat_of_lt (by omega)]

theorem ensureIndexLoaded (path : String) :
    OpenedTable.ensureIndexLoaded decompressVec ⟨written.metadata, true⟩ path
      written.file = .ok written.index := by
  have short := sound.short
  rw [sound.file_length] at short
  have nonempty := sound.isSnappy.nonempty sound.snappy
  have positive := List.length_pos_iff.mpr nonempty
  have size : written.metadata.indexSize.toNat = indexData.length := by
    rw [sound.indexSize, toNat_ofNat_of_lt (by omega)]
  have start : written.metadata.indexOffset.toNat = writer.out.length := by
    rw [sound.indexOffset, sound.offset_toNat]
  have sized : written.metadata.indexSize ≠ 0 := by
    intro zero
    rw [zero] at size
    have none : (0 : UInt64).toNat = 0 := rfl
    omega
  let behind := checksummed written.bloomFilter.toBytes ++
    checksummed written.metadata.encode
  let sum := encodeU32 (crc32 indexData).toNat
  have split : written.file =
      writer.out ++ indexData ++ (sum ++ behind) := by
    rw [sound.file]
    simp only [checksummed, behind, sum, List.append_assoc]
  have buffer := readExactAt_middle split start
  have stored : readU32LeAt written.file
      (written.metadata.indexOffset + written.metadata.indexSize) =
        .ok (crc32 indexData).toNat := by
    refine @readU32LeAt_middle _ (writer.out ++ indexData) behind _ _
      (UInt32.toNat_lt _) ?_ ?_
    · rw [split]
      simp only [sum, List.append_assoc]
    · rw [UInt64.toNat_add, start, size, List.length_append]
      exact Nat.mod_eq_of_lt (by omega)
  have decompressed := sound.isSnappy.roundTrip sound.snappy
  have decoded : PackedIndex.decode written.index.encode =
      .ok written.index := by
    apply PackedIndex.decode_encode
    rw [sound.recOff_length]
    exact sound.entries_length
  have count : ¬ written.index.recOff.length ≠
      written.metadata.entryCount.toNat := by
    have few := sound.entries_length
    rw [not_not, sound.recOff_length, sound.entryCount,
      toNat_ofNat_of_lt (by omega)]
  rw [OpenedTable.ensureIndexLoaded]
  simp only [if_neg sized, size, buffer, stored, ok_bind, ne_eq,
    not_true_eq_false, if_false, OpenedTable.indexBytes, if_true,
    SstableFile.snapDecompress, decompressed, decoded]
  exact if_neg count

end Sound

/-! ## Blocks and entries -/

def SSTableMetadata.forLookups (metadata : SSTableMetadata) :
    F4kvsLsm.SSTableMetadata :=
  ⟨metadata.fileSize, metadata.smallestKey, metadata.largestKey,
    metadata.indexOffset⟩

/-- A ready handle on the written file, with its metadata and its index: that
of a table that was opened again, or that of the writer.  A filter rules out
none of the keys, and a block that is held in memory is the one of the file. -/
structure Handle (compressVec : Bytes → Except String Bytes)
    (entries : List SSTableEntry) (written : WrittenTable)
    (blockCache : Option BlockCache) (table : SstableFile) : Prop where
  file : table.file = written.file
  metadata : table.metadata = written.metadata.forLookups
  index : ∃ records, written.index.Holds records ∧
    table.index = .ok ⟨records⟩
  ready : table.isReady = true
  compressed : table.blockCompressed = true
  canOpen : table.canOpen = true
  filter : ∀ mightContain, table.bloomFilter = some mightContain →
    ∀ entry ∈ entries, mightContain entry.key = true
  held : ∀ offset block raw, table.heldBlock offset blockCache = some block →
    BlockAt compressVec written.file offset.toNat raw → block = raw

theorem BlockAt.inside {file : Bytes} {offset : Nat} {raw : Bytes}
    (block : BlockAt compressVec file offset raw) :
    offset + 8 ≤ file.length := by
  obtain ⟨comp, front, behind, -, rfl, rfl⟩ := block
  simp only [List.length_append, encodeU32, toLeBytes_length]
  omega

theorem readSnappyBlockSync_of_blockAt {table : SstableFile}
    (blockCache : Option BlockCache) {offset : UInt64} {raw : Bytes}
    (isSnappy : IsSnappy compressVec decompressVec)
    (canOpen : table.canOpen = true)
    (held : ∀ block, table.heldBlock offset blockCache = some block →
      block = raw)
    (block : BlockAt compressVec table.file offset.toNat raw)
    (positive : raw ≠ []) (small : raw.length < maxWrittenBlock) :
    table.readSnappyBlockSync decompressVec offset blockCache = .ok raw := by
  have short := table.short
  have inside := block.inside
  obtain ⟨comp, front, behind, compressed, split, start⟩ := block
  have bounded := isSnappy.bounded compressed
  have nonempty := List.length_pos_iff.mpr (isSnappy.nonempty compressed)
  have rawPositive := List.length_pos_iff.mpr positive
  have target : maxWrittenBlock = 104890376 := rfl
  have largest : SstableFile.maxBlock = 134217728 := rfl
  have four : (offset + 4).toNat = offset.toNat + 4 :=
    @SstableFile.toNat_add_ofNat offset 4 (by omega)
  have eight : (offset + 8).toNat = offset.toNat + 8 :=
    @SstableFile.toNat_add_ofNat offset 8 (by omega)
  have fourBytes : ∀ n, (encodeU32 n).length = 4 := toLeBytes_length 4
  have first : readU32LeAt table.file offset = .ok raw.length :=
    @readU32LeAt_middle _ front
      (encodeU32 comp.length ++ comp ++ behind) _ _ (by omega)
      (by rw [split]; simp only [List.append_assoc]) start.symm
  have second : readU32LeAt table.file (offset + 4) = .ok comp.length := by
    refine @readU32LeAt_middle _ (front ++ encodeU32 raw.length)
      (comp ++ behind) _ _ (by omega)
      (by rw [split]; simp only [List.append_assoc]) ?_
    rw [four, List.length_append, fourBytes, start]
  have third : readExactAt table.file (offset + 8) comp.length = .ok comp := by
    refine @readExactAt_middle _
      (front ++ encodeU32 raw.length ++ encodeU32 comp.length) _ behind _
      (by rw [split]; simp only [List.append_assoc]) ?_
    rw [eight, List.length_append, List.length_append, fourBytes, fourBytes,
      start]
  have header : ¬ (raw.length = 0 ∨ raw.length > SstableFile.maxBlock ∨
      comp.length = 0 ∨ comp.length > SstableFile.maxBlock) := by omega
  have decompressed := isSnappy.roundTrip compressed
  rw [SstableFile.readSnappyBlockSync]
  cases memory : table.heldBlock offset blockCache with
  | some block => rw [held block memory]
  | none =>
      simp only [(SstableFile.ensureFileOpenSync_eq_ok_iff table).mpr canOpen,
        first, second, ok_bind, if_neg header, third,
        SstableFile.snapDecompress, decompressed, ne_eq, not_true_eq_false,
        if_false]

namespace Sound

variable (sound : Sound compressVec decompressVec hash entries
  written writer indexData)

include sound

theorem exists_entry {pair : IndexPair} (member : pair ∈ writer.indexPairs) :
    ∃ entry ∈ entries, LeadsTo compressVec writer.out pair entry := by
  obtain ⟨i, bound, rfl⟩ := List.mem_iff_getElem.mp member
  obtain ⟨same, leads⟩ := List.forall₂_iff_get.mp sound.holds.index
  exact ⟨_, List.getElem_mem (same ▸ bound), leads i bound (same ▸ bound)⟩

theorem exists_pair {entry : SSTableEntry} (member : entry ∈ entries) :
    ∃ pair ∈ writer.indexPairs, LeadsTo compressVec writer.out pair entry := by
  obtain ⟨i, bound, rfl⟩ := List.mem_iff_getElem.mp member
  obtain ⟨same, leads⟩ := List.forall₂_iff_get.mp sound.holds.index
  exact ⟨_, List.getElem_mem (same.symm ▸ bound),
    leads i (same.symm ▸ bound) bound⟩

/-- The offset and the place of a pair are those of data. -/
theorem leadsTo_bounds {pair : IndexPair} {entry : SSTableEntry}
    (leads : LeadsTo compressVec writer.out pair entry) :
    pair.2.1.toNat + 8 ≤ writer.out.length ∧
      pair.2.2.toNat < blockTarget := by
  obtain ⟨-, offset, block, place, blockAt, framed, -⟩ := leads
  have inside := blockAt.inside
  have short := sound.short
  rw [sound.file_length] at short
  rw [place, toNat_ofNat_of_lt (by omega)]
  exact ⟨inside, framed.early⟩

theorem tryReadCompressedEntry {table : SstableFile}
    {blockCache : Option BlockCache}
    (handle : Handle compressVec entries written blockCache table)
    {pair : IndexPair} {entry : SSTableEntry} (member : entry ∈ entries)
    (leads : LeadsTo compressVec writer.out pair entry) :
    table.tryReadCompressedEntry decompressVec pair.2.1 pair.2.2 blockCache =
      .ok entry := by
  have inFile := leads.append (checksummed indexData ++
    checksummed written.bloomFilter.toBytes ++
      checksummed written.metadata.encode)
  simp only [← List.append_assoc, ← sound.file] at inFile
  obtain ⟨-, offset, block, place, blockAt, framed, small⟩ := inFile
  have storable := sound.storable entry member
  obtain ⟨front, back, split, start⟩ := framed.place
  have positive : block ≠ [] := by
    rintro rfl
    have lengths := congrArg List.length split
    rw [List.length_append, List.length_append, framedEntry_length,
      List.length_nil] at lengths
    omega
  have inside := blockAt.inside
  have short := sound.short
  have same : pair.2.1.toNat = offset := by
    rw [place, toNat_ofNat_of_lt (by omega)]
  rw [← same] at blockAt
  have read := readSnappyBlockSync_of_blockAt blockCache
    sound.isSnappy handle.canOpen
    (fun held memory => handle.held _ _ _ memory blockAt)
    (handle.file ▸ blockAt) positive small
  have parsed := parseFramedEntry_framedEntry storable.small front back
  rw [← split, start, SSTableEntry.deserialize_encode storable.fits,
    storable.notJson] at parsed
  rw [SstableFile.tryReadCompressedEntry, read]
  exact parsed

end Sound

/-! ## Lookups -/

/-- What a lookup answers about the entry that it finds. -/
def answer : Option SSTableEntry → SstableLookupResult
  | some entry => entry.lookupResult
  | none => .missing

def asTable (name : SstableName) (entries : List SSTableEntry)
    (written : WrittenTable) : SSTable where
  name
  entries
  fileSize := written.metadata.fileSize.toNat
  createdAt := written.metadata.createdAt.toNat
  blockCompressed := true

namespace Sound

variable (sound : Sound compressVec decompressVec hash entries
  written writer indexData)
  {table : SstableFile} {blockCache : Option BlockCache}
  (handle : Handle compressVec entries written blockCache table)

include sound

theorem wellFormed (name : SstableName) :
    (asTable name entries written).WellFormed where
  sized := by
    have header := BlockWriter.writeBlocks_out sound.blocks
    have positive : 0 < writer.out.length := by
      have bound := header.length_le
      have eight : BlockWriter.start.out.length = 8 := rfl
      omega
    rw [asTable, sound.fileSize, sound.offset_toNat]
    exact positive
  nonempty := by
    obtain ⟨first, head, -⟩ := sound.smallest
    rintro rfl
    cases head
  sorted := sound.ascending

theorem smallestKey_eq (name : SstableName) :
    (asTable name entries written).smallestKey =
      written.metadata.smallestKey := by
  obtain ⟨first, head, same⟩ := sound.smallest
  rw [SSTable.smallestKey, same]
  change (match entries.head? with
    | some entry => entry.key
    | none => "") = first.key
  rw [head]

theorem largestKey_eq (name : SstableName) :
    (asTable name entries written).largestKey =
      written.metadata.largestKey := by
  obtain ⟨last, tail, same⟩ := sound.largest
  rw [SSTable.largestKey, same]
  change (match entries.getLast? with
    | some entry => entry.key
    | none => "") = last.key
  rw [tail]

theorem get_eq_some_iff {key : String} {location : UInt64 × UInt32} :
    (FlatIndex.mk (writer.indexPairs.map PackedIndex.toRecord)).get key =
      some location ↔ (key, location) ∈ writer.indexPairs :=
  PackedIndex.get_of_ascending (ascending_pairs sound.sameKeys sound.ascending)

include handle

/-- The list of records that the handle has loaded. -/
theorem index_eq : table.index =
    .ok ⟨writer.indexPairs.map PackedIndex.toRecord⟩ := by
  obtain ⟨records, holds, loaded⟩ := handle.index
  have unique : records = writer.indexPairs.map PackedIndex.toRecord := by
    have rightUnique : Relator.RightUnique
        (fun (off : UInt32) (record : IndexRecord) =>
          written.index.recordAtOff off.toNat = .ok record) := by
      intro off first second one two
      rw [one] at two
      exact Except.ok.inj two
    exact rightUnique.forall₂ holds sound.index_holds
  rw [loaded, unique]

theorem located_eq {pair : IndexPair} {entry : SSTableEntry}
    (member : entry ∈ entries) (listed : pair ∈ writer.indexPairs)
    (leads : LeadsTo compressVec writer.out pair entry) :
    table.located entry.key = some pair.2 := by
  obtain ⟨key, offset, loc⟩ := pair
  have same : key = entry.key := leads.1
  subst same
  let whole := asTable (.flush 0 0) entries written
  have formed : whole.WellFormed := sound.wellFormed _
  have there : entry ∈ whole.entries := member
  have low := formed.smallestKey_le there
  have high := formed.le_largestKey there
  rw [sound.smallestKey_eq] at low
  rw [sound.largestKey_eq] at high
  have inRange : ¬ (entry.key < table.metadata.smallestKey ∨
      entry.key > table.metadata.largestKey) := by
    rw [handle.metadata, not_or]
    exact ⟨not_lt.mpr low, not_lt.mpr high⟩
  rw [SstableFile.located_eq_some_iff]
  refine ⟨?_, _, sound.index_eq handle, sound.get_eq_some_iff.mpr listed⟩
  rw [SstableFile.keyMayExist, handle.ready]
  simp only [Bool.not_true, Bool.false_eq_true, if_false, if_neg inRange]
  cases bloom : table.bloomFilter with
  | none => rfl
  | some mightContain => exact handle.filter _ bloom entry member

theorem pointsToData {pair : IndexPair} {entry : SSTableEntry}
    (leads : LeadsTo compressVec writer.out pair entry) :
    table.PointsToData pair.2.1 pair.2.2 ∧
      pair.2.1 ≤ table.metadata.fileSize := by
  obtain ⟨inside, early⟩ := sound.leadsTo_bounds leads
  have index : table.metadata.indexOffset = writer.offset := by
    rw [handle.metadata]
    exact sound.indexOffset
  have size : table.metadata.fileSize = writer.offset := by
    rw [handle.metadata]
    exact sound.fileSize
  have place := sound.offset_toNat
  have target : blockTarget = 32768 := rfl
  have largest : maxEntrySize.toNat = 104857600 := rfl
  refine ⟨⟨?_, ?_, ?_, ?_⟩, ?_⟩
  · rw [index]
    intro zero
    rw [zero] at place
    have none : (0 : UInt64).toNat = 0 := rfl
    omega
  · rw [index, UInt64.lt_iff_toNat_lt]
    omega
  · rw [UInt32.le_iff_toNat_le]
    omega
  · intro legacy
    rw [handle.compressed] at legacy
    cases legacy
  · rw [size, UInt64.le_iff_toNat_le]
    omega

theorem lookups_answer (name : SstableName) (key : String) :
    table.lookupSync decompressVec key blockCache =
        .ok (answer ((asTable name entries written).lookup key)) ∧
      table.lookupPinned decompressVec key blockCache =
        .ok (answer ((asTable name entries written).lookup key)) := by
  have formed := sound.wellFormed name
  cases found : (asTable name entries written).lookup key with
  | some entry =>
      obtain ⟨member, rfl⟩ := formed.lookup_eq_some_iff.mp found
      obtain ⟨pair, listed, leads⟩ := sound.exists_pair member
      have located := sound.located_eq handle member listed leads
      obtain ⟨points, near⟩ := sound.pointsToData handle leads
      have read := sound.tryReadCompressedEntry handle member leads
      have sync : (table.lookupSync decompressVec entry.key
          blockCache).toOption = _ :=
        SstableFile.lookupSync_of_points located points
      have pinned : (table.lookupPinned decompressVec entry.key
          blockCache).toOption = _ :=
        SstableFile.lookupPinned_of_points located points near
      rw [SstableFile.tryReadEntrySync_compressed handle.compressed,
        if_pos handle.canOpen, read] at sync
      rw [SstableFile.tryReadEntry, if_pos handle.compressed, read] at pinned
      exact ⟨Fallible.toOption_eq_some_iff.mp sync,
        Fallible.toOption_eq_some_iff.mp pinned⟩
  | none =>
      have absent : table.located key = none := by
        cases located : table.located key with
        | none => rfl
        | some location =>
            obtain ⟨-, index, loaded, hit⟩ :=
              SstableFile.located_eq_some_iff.mp located
            rw [sound.index_eq handle] at loaded
            cases loaded
            obtain ⟨entry, member, leads⟩ :=
              sound.exists_entry (sound.get_eq_some_iff.mp hit)
            have there := formed.lookup_eq_some_iff.mpr
              ⟨member, leads.1.symm⟩
            rw [found] at there
            cases there
      have sync : table.lookupSync decompressVec key blockCache =
          .ok .missing := by
        rw [SstableFile.lookupSync, handle.ready]
        cases may : table.keyMayExist key with
        | false => rfl
        | true =>
            rw [SstableFile.located, may, if_pos rfl, sound.index_eq handle]
              at absent
            have missed : FlatIndex.get _ key = none := absent
            simp only [Bool.not_true, Bool.false_eq_true, if_false,
              sound.index_eq handle, ok_bind, missed]
      have pinned : (table.lookupSync decompressVec key
          blockCache).toOption = _ :=
        SstableFile.lookups_of_not_located absent
      rw [sync] at pinned
      exact ⟨sync, Fallible.toOption_eq_some_iff.mp pinned.symm⟩

end Sound

/-! ## Scans -/

theorem fromUtf8Lossy_strBytes (s : String) :
    fromUtf8Lossy (strBytes s) = s := by
  rw [fromUtf8Lossy, strFromBytes_strBytes]

theorem isPrefixOf_strBytes (keyPrefix key : String) :
    (strBytes keyPrefix).isPrefixOf (strBytes key) =
      startsWith key keyPrefix := by
  rw [Bool.eq_iff_iff, startsWith_iff, List.isPrefixOf_iff_prefix,
    strBytes_eq, strBytes_eq]
  exact OrderedCode.utf8_keepsOrder.flatMap_isPrefix_iff

theorem beforeEnd_strBytes (rangeEnd key : String)
    (location : UInt64 × UInt32) :
    SstableFile.beforeEnd rangeEnd (strBytes key, location) =
      belowEnd rangeEnd key := by
  rw [SstableFile.beforeEnd, belowEnd]
  cases exclusiveRangeEnd rangeEnd with
  | none => rfl
  | some bound => exact decide_eq_decide.mpr strBytes_lt_iff

/-- A record of the index is read as the entry. -/
structure ReadAs (decompressVec : Bytes → Except String Bytes)
    (table : SstableFile) (record : IndexRecord) (entry : SSTableEntry) :
    Prop where
  key : record.1 = strBytes entry.key
  read : table.tryReadEntry decompressVec record.2.1 record.2.2 none =
    .ok entry
  near : record.2.1 ≤ table.metadata.fileSize
  small : record.2.2 ≤ maxEntrySize

section

variable {table : SstableFile} {records : List IndexRecord}
  (readAs : List.Forall₂ (ReadAs decompressVec table) records entries)

include readAs

theorem recordsFrom_readAs (start : String) :
    List.Forall₂ (ReadAs decompressVec table)
      ((FlatIndex.mk records).recordsFrom (strBytes start))
      (entries.drop (BinarySearch.partitionPoint
        (fun entry => decide (entry.key < start)) entries)) := by
  have same : (FlatIndex.mk records).partitionPoint (strBytes start) =
      BinarySearch.partitionPoint
        (fun entry => decide (entry.key < start)) entries := by
    refine Corresponding.partitionPoint_eq (readAs.imp fun record entry here =>
      ?_)
    rw [here.key, decide_eq_decide.mpr strBytes_lt_iff]
  rw [FlatIndex.recordsFrom, same]
  exact List.forall₂_drop _ readAs

theorem readLocated_eq : table.readLocated decompressVec records =
    entries.map fun entry => (entry.key, entry.value, entry.deleted) := by
  induction readAs with
  | nil => rfl
  | cons here _ inductionHypothesis =>
      rw [SstableFile.readLocated] at inductionHypothesis ⊢
      rw [List.filterMap_cons, here.read, here.key, fromUtf8Lossy_strBytes,
        inductionHypothesis]
      rfl

theorem keys_eq : (records.map fun record => fromUtf8Lossy record.1) =
    entries.map SSTableEntry.key := by
  induction readAs with
  | nil => rfl
  | cons here _ inductionHypothesis =>
      rw [List.map_cons, List.map_cons, here.key, fromUtf8Lossy_strBytes,
        inductionHypothesis]

theorem readListed_eq (compressed : table.blockCompressed = true) :
    records.mapM (table.readListed decompressVec) = .ok entries := by
  rw [Fallible.mapM_eq_ok_iff]
  refine readAs.imp fun record entry here => ?_
  have near : ¬ record.2.1 > table.metadata.fileSize :=
    UInt64.not_lt.mpr here.near
  have small : ¬ ((¬ table.blockCompressed = true ∧ record.2.2 = 0) ∨
      record.2.2 > maxEntrySize) := by
    rw [compressed, not_or]
    exact ⟨fun legacy => legacy.1 rfl, UInt32.not_lt.mpr here.small⟩
  rw [SstableFile.readListed]
  simp only [if_neg near, if_neg small, here.read]

end

/-! ## Round trip -/

/-- A handle on a file reads like a list of entries: lookups of all keys, the
read of all entries, and all scans. -/
structure ReadsLike (decompressVec : Bytes → Except String Bytes)
    (handle : SstableFile) (table : SSTable) : Prop where
  lookupSync : ∀ key, handle.lookupSync decompressVec key none =
    .ok (answer (table.lookup key))
  lookupPinned : ∀ key, handle.lookupPinned decompressVec key none =
    .ok (answer (table.lookup key))
  getAllEntries : handle.getAllEntries decompressVec = .ok table.entries
  scanPrefix : ∀ keyPrefix, (handle.scanPrefix keyPrefix).toOption =
    (table.scanPrefix ReadFaults.none keyPrefix).toOption
  scanPrefixLayer : ∀ keyPrefix,
    (handle.scanPrefixLayer decompressVec keyPrefix).toOption =
      (table.scanPrefixLayer ReadFaults.none keyPrefix).toOption
  scanRange : ∀ start rangeEnd,
    (handle.scanRange decompressVec start rangeEnd).toOption =
      (table.scanRange ReadFaults.none start rangeEnd).toOption
  scanRangeLayer : ∀ start rangeEnd,
    (handle.scanRangeLayer decompressVec start rangeEnd).toOption =
      (table.scanRangeLayer ReadFaults.none start rangeEnd).toOption
  scanAll : (handle.scanAll decompressVec).toOption =
    (table.scanAll ReadFaults.none).toOption

theorem readEntries_none (table : SSTable) (chosen : List SSTableEntry) :
    table.readEntries ReadFaults.none chosen =
      chosen.map fun entry => (entry.key, entry.value, entry.deleted) := by
  rw [SSTable.readEntries, List.filter_eq_self.mpr]
  exact fun _ _ => rfl

namespace Sound

variable (sound : Sound compressVec decompressVec hash entries
  written writer indexData)
  {table : SstableFile}
  (handle : Handle compressVec entries written none table)

include sound handle

theorem readAs : List.Forall₂ (ReadAs decompressVec table)
    (writer.indexPairs.map PackedIndex.toRecord) entries := by
  rw [List.forall₂_map_left_iff, List.forall₂_iff_get]
  obtain ⟨same, leads⟩ := List.forall₂_iff_get.mp sound.holds.index
  refine ⟨same, fun i bound bound' => ?_⟩
  have here := leads i bound bound'
  obtain ⟨points, near⟩ := sound.pointsToData handle here
  refine ⟨congrArg strBytes here.1, ?_, near, points.2.2.1⟩
  rw [SstableFile.tryReadEntry, if_pos handle.compressed]
  exact sound.tryReadCompressedEntry handle (List.getElem_mem bound') here

theorem readsLike (name : SstableName)
    (unmarked : table.markedForDeletion = false) :
    ReadsLike decompressVec table (asTable name entries written) := by
  have readAs := sound.readAs handle
  have index := sound.index_eq handle
  have opens := (SstableFile.ensureFileOpenSync_eq_ok_iff table).mpr
    handle.canOpen
  have fromPrefix : ∀ keyPrefix, List.Forall₂ (ReadAs decompressVec table)
      (((FlatIndex.mk (writer.indexPairs.map PackedIndex.toRecord)).recordsFrom
        (strBytes keyPrefix)).takeWhile fun record =>
          (strBytes keyPrefix).isPrefixOf record.1)
      (((asTable name entries written).indexFrom keyPrefix).takeWhile
        fun entry => startsWith entry.key keyPrefix) := by
    intro keyPrefix
    refine Corresponding.takeWhile (fun record entry here => ?_)
      (recordsFrom_readAs readAs keyPrefix)
    rw [here.key, isPrefixOf_strBytes]
  have fromRange : ∀ start rangeEnd,
      List.Forall₂ (ReadAs decompressVec table)
        (((FlatIndex.mk
          (writer.indexPairs.map PackedIndex.toRecord)).recordsFrom
            (strBytes start)).takeWhile (SstableFile.beforeEnd rangeEnd))
        (((asTable name entries written).indexFrom start).takeWhile
          fun entry => belowEnd rangeEnd entry.key) := by
    intro start rangeEnd
    refine Corresponding.takeWhile (fun record entry here => ?_)
      (recordsFrom_readAs readAs start)
    obtain ⟨key, location⟩ := record
    have same : key = strBytes entry.key := here.key
    rw [same, beforeEnd_strBytes]
  have rangeLayer : ∀ start rangeEnd,
      (table.scanRangeLayer decompressVec start rangeEnd) =
        .ok ((((asTable name entries written).indexFrom start).takeWhile
          fun entry => belowEnd rangeEnd entry.key).map
            fun entry => (entry.key, entry.value, entry.deleted)) := by
    intro start rangeEnd
    rw [SstableFile.scanRangeLayer, handle.ready]
    simp only [Bool.not_true, Bool.false_eq_true, if_false, opens, index,
      ok_bind, readLocated_eq (fromRange start rangeEnd)]
  refine ⟨fun key => (sound.lookups_answer handle name key).1,
    fun key => (sound.lookups_answer handle name key).2, ?_, ?_, ?_, ?_, ?_,
    ?_⟩
  · rw [SstableFile.getAllEntries, handle.ready, unmarked]
    simp only [Bool.not_true, Bool.false_eq_true, if_false, index, ok_bind]
    exact readListed_eq readAs handle.compressed
  · intro keyPrefix
    simp only [SstableFile.scanPrefix, index, ok_bind,
      keys_eq (fromPrefix keyPrefix)]
    rfl
  · intro keyPrefix
    rw [SstableFile.scanPrefixLayer, handle.ready]
    simp only [Bool.not_true, Bool.false_eq_true, if_false, opens, index,
      ok_bind, readLocated_eq (fromPrefix keyPrefix)]
    rw [SSTable.scanPrefixLayer, readEntries_none]
    rfl
  · intro start rangeEnd
    rw [SstableFile.scanRange, rangeLayer, SSTable.scanRange,
      SSTable.scanRangeLayer, readEntries_none]
    rfl
  · intro start rangeEnd
    rw [rangeLayer, SSTable.scanRangeLayer, readEntries_none]
    rfl
  · rw [SstableFile.scanAll, index]
    simp only [ok_bind, readLocated_eq readAs]
    rw [SSTable.scanAll, readEntries_none]
    rfl

end Sound

/-- A table that was opened again: metadata and index of the file, and no
filter. -/
def reopened (path : String) (config : SstableConfig) (opened : OpenedTable)
    (records : List IndexRecord) (file : Bytes)
    (short : file.length < 2 ^ 63) : SstableFile where
  path
  config
  metadata := opened.metadata.forLookups
  index := .ok ⟨records⟩
  bloomFilter := none
  file
  fileOpen := true
  markedForDeletion := false
  isReady := true
  blockCompressed := opened.blockCompressed
  decompressedBlock := none
  short

/-- The table that wrote the file: it has the filter in memory, and no open
handle. -/
def writersOwn (path : String) (config : SstableConfig)
    (hash : String → Nat → Nat) (written : WrittenTable)
    (records : List IndexRecord) (short : written.file.length < 2 ^ 63) :
    SstableFile where
  path
  config
  metadata := written.metadata.forLookups
  index := .ok ⟨records⟩
  bloomFilter := some (written.bloomFilter.mightContain hash)
  file := written.file
  fileOpen := false
  markedForDeletion := false
  isReady := true
  blockCompressed := true
  decompressedBlock := none
  short

theorem filterOf_mightContain {entry : SSTableEntry}
    (few : entries.length * 10 < 2 ^ 32) (member : entry ∈ entries) :
    (filterOf hash entries).mightContain hash entry.key = true := by
  have steps : filterOf hash entries =
      (withOptimalParams entries.length).run hash
        (entries.map fun entry => .add entry.key) := by
    rw [filterOf, BloomFilter.run, List.foldl_map, List.foldl_map]
    rfl
  have consistent : (withOptimalParams entries.length).Consistent :=
    BloomFilter.new_consistent few 7
  rw [steps]
  exact (consistent.run_marks
    (List.mem_map.mpr ⟨entry, member, rfl⟩)).mightContain

/-- A written table whose keys are clear opens again with its metadata and its
index, and then it reads like the list of entries that was written; so does
the handle that wrote it. -/
theorem written_table_reads_back
    {compressVec decompressVec : Bytes → Except String Bytes}
    (isSnappy : IsSnappy compressVec decompressVec)
    (hash : String → Nat → Nat) {level createdAt : UInt64}
    {entries : List SSTableEntry} {written : WrittenTable}
    (wrote : writeEntries compressVec hash level createdAt entries =
      .ok (some written))
    (storable : ∀ entry ∈ entries, entry.Storable)
    (ascending : Ascending SSTableEntry.key entries)
    (small : indexLength entries < 2 ^ 32)
    (short : written.file.length < 2 ^ 63)
    (room : written.metadata.smallestKey.utf8ByteSize +
      written.metadata.largestKey.utf8ByteSize ≤ 1952)
    (clear : SSTableMetadata.KeysClear written.metadata.encodeKeys)
    (name : SstableName) (path : String) (config : SstableConfig)
    (resilient : config.enableResilientHandling = true) :
    ∃ opened records,
      tryReadMetadata written.file = .ok opened ∧
      opened.metadata = written.metadata ∧
      opened.ensureIndexLoaded decompressVec path written.file =
        .ok written.index ∧
      written.index.Holds records ∧
      ReadsLike decompressVec
        (reopened path config opened records written.file short)
        (asTable name entries written) ∧
      ReadsLike decompressVec
        (writersOwn path config hash written records short)
        (asTable name entries written) := by
  obtain ⟨writer, indexData, parts⟩ := writeEntries_consists wrote
  have sound : Sound compressVec decompressVec hash entries written writer
      indexData := ⟨parts, isSnappy, storable, ascending, small, short⟩
  have opens := (parts.tryReadMetadata_eq_ok_iff short room).mpr clear
  have few : entries.length * 10 < 2 ^ 32 := by
    have pairs := PackedIndex.length_le_packed_length writer.indexPairs
    rw [packed_length sound.sameKeys, sound.sameKeys.length_eq] at pairs
    omega
  have again : Handle compressVec entries written none
      (reopened path config ⟨written.metadata, true⟩ _ written.file short) :=
    { file := rfl, metadata := rfl, index := ⟨_, sound.index_holds, rfl⟩
      ready := rfl, compressed := rfl, canOpen := rfl
      filter := fun _ none => by cases none
      held := fun _ _ _ none => by cases none }
  have own : Handle compressVec entries written none
      (writersOwn path config hash written _ short) :=
    { file := rfl, metadata := rfl, index := ⟨_, sound.index_holds, rfl⟩
      ready := rfl, compressed := rfl
      canOpen := resilient
      filter := fun mightContain same entry member => by
        cases same
        rw [parts.filter]
        exact filterOf_mightContain few member
      held := fun _ _ _ none => by cases none }
  exact ⟨_, _, opens, rfl, sound.ensureIndexLoaded path, sound.index_holds,
    sound.readsLike again name rfl, sound.readsLike own name rfl⟩

/-- The decompressor for the sections. -/
def decompressBy (book : List (Bytes × Bytes)) (comp : Bytes) :
    Except String Bytes :=
  match book.find? (·.2 = comp) with
  | some pair => .ok pair.1
  | none => .error "not in the book"

theorem compressBy_isSnappy {book : List (Bytes × Bytes)}
    (good : ∀ pair ∈ book, book.find? (·.2 = pair.2) = some pair ∧
      pair.2.length ≤ 32 + pair.1.length + pair.1.length / 6 ∧
      pair.2 ≠ []) : IsSnappy (compressBy book) (decompressBy book) := by
  have inBook : ∀ {raw comp}, compressBy book raw = .ok comp →
      (raw, comp) ∈ book := by
    intro raw comp compressed
    rw [compressBy] at compressed
    cases found : book.find? (·.1 = raw) with
    | none =>
        rw [found] at compressed
        cases compressed
    | some pair =>
        rw [found] at compressed
        obtain ⟨same, -⟩ := List.find?_eq_some_iff_append.mp found
        rw [← of_decide_eq_true same, ← Except.ok.inj compressed]
        exact List.mem_of_find?_eq_some found
  constructor
  · intro raw comp compressed
    rw [decompressBy, (good _ (inBook compressed)).1]
  · exact fun compressed => (good _ (inBook compressed)).2.1
  · exact fun compressed => (good _ (inBook compressed)).2.2

/-- What the decompressor makes of the two sections. -/
def decompressTwo : Bytes → Except String Bytes :=
  decompressBy [(twoEntries.flatMap framedEntry, compressedBlock),
    (rawIndex, compressedIndex)]

theorem compressTwo_isSnappy : IsSnappy compressTwo decompressTwo :=
  compressBy_isSnappy (by decide +kernel)

theorem twoEntries_storable : ∀ entry ∈ twoEntries, entry.Storable := by
  intro entry member
  simp only [twoEntries, List.mem_cons, List.not_mem_nil, or_false]
    at member
  rcases member with rfl | rfl
  · exact ⟨by decide, by decide, rfl⟩
  · exact ⟨by decide, by decide, rfl⟩

theorem twoEntries_ascending : Ascending SSTableEntry.key twoEntries := by
  simp only [Ascending, twoEntries, List.pairwise_cons, List.mem_singleton,
    forall_eq, List.not_mem_nil, false_imp_iff, implies_true, and_true,
    List.Pairwise.nil]
  decide

theorem clear_of_two {metadata : SSTableMetadata}
    (smallest : metadata.smallestKey = "a")
    (largest : metadata.largestKey = "b") :
    SSTableMetadata.KeysClear metadata.encodeKeys := by
  rw [SSTableMetadata.encodeKeys, smallest, largest]
  exact SSTableMetadata.keysClear_of_no_zero (by decide) (by decide)
    (by decide)

/-- The two entries are written, and their table reads back. -/
theorem two_entries_read_back :
    ∃ written opened records,
      writeEntries compressTwo (fun key i => key.length + i) 0 1 twoEntries =
        .ok (some written) ∧
      tryReadMetadata written.file = .ok opened ∧
      ∃ short, ReadsLike decompressTwo
        (reopened "L0.sst" ⟨3, true⟩ opened records written.file short)
        (asTable (.flush 0 1) twoEntries written) := by
  obtain ⟨written, wrote, short, smallest, largest⟩ := exists_two_written
  obtain ⟨opened, records, opens, -, -, -, reads, -⟩ :=
    written_table_reads_back compressTwo_isSnappy _ wrote twoEntries_storable
      twoEntries_ascending (by decide) short
      (by rw [smallest, largest]; decide) (clear_of_two smallest largest)
      (.flush 0 1) "L0.sst" ⟨3, true⟩ rfl
  exact ⟨written, opened, records, wrote, opens, short, reads⟩

end TableFile

end F4kvsLsm
