import F4kvsLsm.Lib.Fallible
import F4kvsLsm.Storage.SstableFile

/-!
# Lookups in a table file

A key is looked up without a runtime (`lookup_sync`) or by a reader that has
pinned the table (`lookup_pinned`).  Both go from the key range over the index
to an entry, with checks of their own on the way.  The blocks and entries that
a lookup leaves in the caches are not part of its result.
-/

namespace F4kvsLsm

open ByteCodec Fallible

/-- Result of a key lookup in a single table. -/
inductive SstableLookupResult where
  | found (value : Value) (timestamp : Nat)
  | tombstone (timestamp : Nat)
  | missing

/-- What a lookup makes of the entry that it has read. -/
def SSTableEntry.lookupResult (entry : SSTableEntry) : SstableLookupResult :=
  if entry.deleted then .tombstone entry.timestamp
  else .found entry.value entry.timestamp

/-- Corrupt or undecodable entries are not read again. -/
def LsmError.isPermanent : LsmError → Bool
  | .corruption _ => true
  | .serialization _ => true
  | _ => false

/-- The largest size in an index, 100 MiB. -/
def maxEntrySize : UInt32 := 100 * 1024 * 1024

namespace SstableFile

variable (table : SstableFile) (decompressVec : Bytes → Except String Bytes)

/-! ## Without a runtime -/

def tryReadEntrySync (offset : UInt64) (loc : UInt32)
    (blockCache : Option BlockCache) : Except LsmError SSTableEntry := do
  table.ensureFileOpenSync
  if table.blockCompressed then do
    let block ← table.readSnappyBlockSync decompressVec offset blockCache
    parseFramedEntry block loc.toNat
  else
    let fileSize := max table.metadata.fileSize.toNat table.file.length
    if (offset + 8).toNat > fileSize then
      .error (.io ("entry header past EOF at " ++ toString offset))
    else do
      let entrySize ← readU32LeAt table.file offset
      if entrySize = 0 ∨ entrySize > maxFramedEntry then
        .error (.corruption ("invalid entry size " ++ toString entrySize ++
          " at " ++ toString offset))
      else
        let dataEnd := offset + 4 + UInt64.ofNat entrySize
        if (dataEnd + 4).toNat > fileSize then
          .error (.io ("entry body past EOF at " ++ toString offset))
        else do
          let entryBuffer ← readExactAt table.file (offset + 4) entrySize
          let storedChecksum ← readU32LeAt table.file dataEnd
          if storedChecksum ≠
              (crc32 (encodeU32 entrySize ++ entryBuffer)).toNat then
            .error (.corruption
              ("SSTable entry checksum mismatch at offset " ++
                toString offset))
          else
            match deserialize SSTableEntry.decode entryBuffer with
            | some entry => .ok entry
            | none => .error (.serialization "Failed to deserialize entry")

def lookupSync (key : String) (blockCache : Option BlockCache) :
    Except LsmError SstableLookupResult :=
  if !table.isReady then
    .error (.internal ("Cannot read from SSTable that is not ready: " ++
      table.debugPath))
  else if !table.keyMayExist key then .ok .missing
  else do
    let index ← table.index
    match index.get key with
    | none => .ok .missing
    | some (offset, size) =>
        if table.metadata.indexOffset = 0 ∨
            offset ≥ table.metadata.indexOffset then .ok .missing
        else if table.blockCompressed ∧ size > maxEntrySize then .ok .missing
        else if ¬ table.blockCompressed ∧
            (size = 0 ∨ size > maxEntrySize) then .ok .missing
        else do
          let entry ←
            table.tryReadEntrySync decompressVec offset size blockCache
          .ok entry.lookupResult

/-! ## Pinned -/

/-- The entry of the cache for an offset, when it can be decoded. -/
def cachedEntry (offset : UInt64) (blockCache : Option BlockCache) :
    Option SSTableEntry :=
  (blockCache.bind fun cache =>
    (cache.get (table.blockCacheKey offset)).2).bind
      (deserialize SSTableEntry.decode)

/-- The part of `try_read_entry` behind the cache, for legacy files. -/
def tryReadFramedEntry (offset : UInt64) : Except LsmError SSTableEntry :=
  if !table.isReady then
    .error (.internal ("Cannot read entry from SSTable that is not ready: " ++
      table.debugPath))
  else if table.markedForDeletion then
    .error (.internal
      ("Cannot read from SSTable marked for deletion: " ++ table.debugPath))
  else do
    table.ensureFileOpenSync
    -- the two flags are looked at again here, in case they have changed
    let fileSize := table.file.length
    if fileSize < table.metadata.fileSize.toNat then
      .error (.corruption ("File size " ++ toString fileSize ++
        " is smaller than expected minimum " ++
        toString table.metadata.fileSize ++ " for SSTable " ++
        table.debugPath ++ ". File may be incomplete or corrupted."))
    else if table.metadata.indexOffset > 0 ∧
        offset ≥ table.metadata.indexOffset then
      .error (.corruption ("Read offset " ++ toString offset ++
        " is in index/metadata section (index starts at " ++
        toString table.metadata.indexOffset ++
        "). This indicates index corruption or reading from wrong offset. " ++
        "SSTable: " ++ table.debugPath))
    else if offset.toNat ≥ fileSize then
      .error (.io ("Read offset " ++ toString offset ++
        " exceeds file size " ++ toString fileSize ++
        ". File may be incomplete."))
    else if (offset + 8).toNat > fileSize then
      .error (.io ("Insufficient data at offset " ++ toString offset ++
        ": need at least 8 bytes, file has " ++
        toString (fileSize - offset.toNat) ++
        " bytes remaining. File may be incomplete."))
    else do
      let entrySize ← readU32LeAt table.file offset
      if entrySize > maxFramedEntry then
        .error (.corruption ("Entry size " ++ toString entrySize ++
          " at offset " ++ toString offset ++
          " is unreasonably large (max: " ++ toString maxFramedEntry ++
          "). This may indicate file corruption, reading from wrong " ++
          "offset, or race condition. SSTable: " ++ table.debugPath ++
          ", file_size: " ++ toString fileSize))
      else if entrySize = 0 then
        .error (.corruption ("Entry size is zero at offset " ++
          toString offset ++ " in SSTable " ++ table.debugPath ++
          ". This indicates corruption."))
      else
        let dataEnd := offset + 4 + UInt64.ofNat entrySize
        let requiredSize := dataEnd + 4
        if requiredSize.toNat > fileSize then
          .error (.io ("Insufficient data for entry at offset " ++
            toString offset ++ ": need " ++ toString requiredSize ++
            " bytes, file has " ++ toString fileSize ++
            " bytes. File may be incomplete."))
        else do
          let entryBuffer ← readExactAt table.file (offset + 4) entrySize
          let storedChecksum ← readU32LeAt table.file dataEnd
          let computedChecksum :=
            (crc32 (encodeU32 entrySize ++ entryBuffer)).toNat
          if storedChecksum ≠ computedChecksum then
            -- the size of the file cannot have changed since the first check
            .error (.corruption
              ("SSTable entry checksum mismatch at offset " ++
                toString offset ++ ": stored=" ++ toString storedChecksum ++
                ", computed=" ++ toString computedChecksum ++
                ". Data may be corrupted. SSTable: " ++ table.debugPath ++
                ", file_size: " ++ toString fileSize ++ ", entry_size: " ++
                toString entrySize))
          else
            match deserialize SSTableEntry.decode entryBuffer with
            | some entry => .ok entry
            | none => .error (.serialization "Failed to deserialize entry")

def tryReadEntry (offset : UInt64) (loc : UInt32)
    (blockCache : Option BlockCache) : Except LsmError SSTableEntry :=
  if table.blockCompressed then
    table.tryReadCompressedEntry decompressVec offset loc blockCache
  else
    match table.cachedEntry offset blockCache with
    | some entry => .ok entry
    | none => table.tryReadFramedEntry offset

/-- Read again after an error that may pass, so many times more.  Nothing
changes the file in between, so each attempt ends like the first one. -/
def readWithRetries (attempt : Except LsmError SSTableEntry) :
    Nat → Except LsmError SSTableEntry
  | 0 => attempt
  | left + 1 =>
      match attempt with
      | .ok entry => .ok entry
      | .error e =>
          if e.isPermanent then .error e else readWithRetries attempt left

/-- `lookup_with_reader_guard`. -/
def lookupPinned (key : String) (blockCache : Option BlockCache) :
    Except LsmError SstableLookupResult :=
  if !table.isReady then
    .error (.internal ("Cannot read from SSTable that is not ready: " ++
      table.debugPath ++ ". The SSTable may still be being written or " ++
      "metadata/index may not be loaded."))
  else if !table.keyMayExist key then .ok .missing
  else if key < table.metadata.smallestKey ∨
      key > table.metadata.largestKey then .ok .missing
  else if table.bloomFilter.any fun mightContain => !mightContain key then
    .ok .missing
  else do
    let index ← table.index
    match index.get key with
    | none => .ok .missing
    | some (offset, size) =>
        if table.metadata.indexOffset = 0 then
          .error (.internal
            ("SSTable metadata index_offset is 0 (uninitialized). " ++
              "This indicates the SSTable was not properly opened. Path: " ++
              table.debugPath))
        else if offset ≥ table.metadata.indexOffset then
          .error (.corruption ("Index offset " ++ toString offset ++
            " for key '" ++ key ++
            "' is in index/metadata section (index starts at " ++
            toString table.metadata.indexOffset ++
            "). This indicates index corruption. SSTable: " ++
            table.debugPath))
        else if ¬ table.blockCompressed ∧ size = 0 then
          .error (.corruption ("Index entry size is zero for key '" ++ key ++
            "' at offset " ++ toString offset ++ ". SSTable: " ++
            table.debugPath))
        else if size > maxEntrySize then
          .error (.corruption ("Index entry size " ++ toString size ++
            " for key '" ++ key ++ "' at offset " ++ toString offset ++
            " is unreasonably large. SSTable: " ++ table.debugPath))
        else if offset > table.metadata.fileSize then
          .error (.corruption ("Index offset " ++ toString offset ++
            " exceeds file size " ++ toString table.metadata.fileSize))
        else if (¬ table.blockCompressed ∧ size = 0) ∨
            size > maxEntrySize then
          .error (.corruption ("Invalid entry size " ++ toString size ++
            " (expected 1-" ++ toString maxEntrySize ++ " bytes)"))
        else do
          let entry ← readWithRetries
            (table.tryReadEntry decompressVec offset size blockCache)
            (table.config.fileRetryAttempts - 1)
          .ok entry.lookupResult

/-! ## What the readers of an entry return -/

variable {table : SstableFile} {decompressVec : Bytes → Except String Bytes}
  {offset : UInt64} {loc : UInt32} {blockCache : Option BlockCache}
  {entry : SSTableEntry}

/-- The reads of one entry in a legacy file. -/
structure ReadsFramed (file : Bytes) (offset : UInt64) (size : Nat)
    (entry : SSTableEntry) : Prop where
  sized : readU32LeAt file offset = .ok size
  positive : size ≠ 0
  bounded : size ≤ maxFramedEntry
  buffered : ∃ buffer, readExactAt file (offset + 4) size = .ok buffer ∧
    deserialize SSTableEntry.decode buffer = some entry ∧
    readU32LeAt file (offset + 4 + UInt64.ofNat size) =
      .ok (crc32 (encodeU32 size ++ buffer)).toNat

theorem toNat_add_ofNat {offset : UInt64} {n : Nat}
    (fits : offset.toNat + n < 2 ^ 64) :
    (offset + UInt64.ofNat n).toNat = offset.toNat + n := by
  rw [UInt64.toNat_add, UInt64.toNat_ofNat', Nat.add_mod_mod,
    Nat.mod_eq_of_lt fits]

/-- Offsets of what is read do not wrap around, since the file is short. -/
theorem readsFramed_iff {size : Nat} (table : SstableFile) :
    ReadsFramed table.file offset size entry ↔
      FramedAt table.file offset.toNat size entry := by
  have short := table.short
  have below := offset.toNat_lt
  have start : offset.toNat + 4 ≤ table.file.length →
      (offset + 4).toNat = offset.toNat + 4 :=
    fun inside => @toNat_add_ofNat offset 4 (by omega)
  have ending : offset.toNat + 4 ≤ table.file.length →
      size ≤ maxFramedEntry →
      (offset + 4 + UInt64.ofNat size).toNat = offset.toNat + 4 + size := by
    intro inside bounded
    rw [maxFramedEntry] at bounded
    rw [toNat_add_ofNat, start inside]
    rw [start inside]
    omega
  constructor
  · rintro ⟨sized, positive, bounded, buffer, buffered, decoded, summed⟩
    obtain ⟨header, sized⟩ := readU32LeAt_eq_ok_iff.mp sized
    obtain ⟨-, same⟩ := (readExactAt_eq_ok_iff positive).mp buffered
    obtain ⟨inside, summed⟩ := readU32LeAt_eq_ok_iff.mp summed
    rw [ending header bounded] at inside summed
    rw [start header] at same
    rw [← same] at decoded summed
    exact ⟨sized, positive, bounded, inside, summed, decoded⟩
  · rintro ⟨sized, positive, bounded, inside, summed, decoded⟩
    have header : offset.toNat + 4 ≤ table.file.length := by omega
    refine ⟨readU32LeAt_eq_ok_iff.mpr ⟨header, sized⟩, positive, bounded, _,
      (readExactAt_eq_ok_iff positive).mpr ⟨?_, rfl⟩, ?_,
      readU32LeAt_eq_ok_iff.mpr ⟨?_, ?_⟩⟩
    · rw [start header]
      omega
    · rw [start header]
      exact decoded
    · rw [ending header bounded]
      exact inside
    · rw [ending header bounded, start header]
      exact summed

theorem ReadsFramed.inside {size : Nat}
    (reads : ReadsFramed table.file offset size entry) :
    (offset + 8).toNat ≤ table.file.length ∧
      (offset + 4 + UInt64.ofNat size + 4).toNat ≤ table.file.length ∧
      offset.toNat < table.file.length := by
  have short := table.short
  have framed := (readsFramed_iff table).mp reads
  have bounded := framed.bounded
  have inside := framed.inside
  have positive := framed.positive
  rw [maxFramedEntry] at bounded
  have header : (offset + 8).toNat = offset.toNat + 8 :=
    @toNat_add_ofNat offset 8 (by omega)
  have start : (offset + 4).toNat = offset.toNat + 4 :=
    @toNat_add_ofNat offset 4 (by omega)
  have data : (offset + 4 + UInt64.ofNat size).toNat =
      offset.toNat + 4 + size := by
    rw [toNat_add_ofNat (by omega), start]
  have ending : (offset + 4 + UInt64.ofNat size + 4).toNat =
      offset.toNat + 4 + size + 4 := by
    rw [← data]
    exact @toNat_add_ofNat _ 4 (by omega)
  omega

theorem tryReadEntrySync_legacy_iff
    (legacy : table.blockCompressed = false) :
    table.tryReadEntrySync decompressVec offset loc blockCache = .ok entry ↔
      table.canOpen = true ∧
        ∃ size, FramedAt table.file offset.toNat size entry := by
  simp only [← readsFramed_iff, ← ensureFileOpenSync_eq_ok_iff]
  rw [tryReadEntrySync, bind_eq_ok_iff, legacy, if_neg Bool.false_ne_true]
  constructor
  · rintro ⟨_, opened, read⟩
    refine ⟨opened, ?_⟩
    dsimp only at read
    split at read
    · cases read
    · obtain ⟨size, sized, read⟩ := bind_eq_ok_iff.mp read
      split at read
      · cases read
      · case isFalse some =>
          rw [not_or] at some
          split at read
          · cases read
          · obtain ⟨buffer, buffered, read⟩ := bind_eq_ok_iff.mp read
            obtain ⟨sum, summed, read⟩ := bind_eq_ok_iff.mp read
            split at read
            · cases read
            · case isFalse same =>
                rw [not_not.mp same] at summed
                split at read
                · case h_1 decoded =>
                    cases read
                    exact ⟨size, sized, some.1, Nat.le_of_not_gt some.2,
                      buffer, buffered, decoded, summed⟩
                · cases read
  · rintro ⟨opened, size, reads⟩
    obtain ⟨header, ending, -⟩ := reads.inside
    obtain ⟨sized, positive, bounded, buffer, buffered, decoded, summed⟩ :=
      reads
    have large := Nat.le_max_right table.metadata.fileSize.toNat
      table.file.length
    refine ⟨(), opened, ?_⟩
    dsimp only
    rw [if_neg (Nat.not_lt_of_le (Nat.le_trans header large))]
    refine bind_eq_ok_iff.mpr ⟨size, sized, ?_⟩
    rw [if_neg (not_or.mpr ⟨positive, Nat.not_lt_of_le bounded⟩),
      if_neg (Nat.not_lt_of_le (Nat.le_trans ending large))]
    refine bind_eq_ok_iff.mpr ⟨buffer, buffered, ?_⟩
    refine bind_eq_ok_iff.mpr ⟨_, summed, ?_⟩
    rw [if_neg (not_not.mpr rfl), decoded]

theorem tryReadFramedEntry_iff
    (ready : table.isReady = true)
    (below : offset < table.metadata.indexOffset) :
    table.tryReadFramedEntry offset = .ok entry ↔
      table.markedForDeletion = false ∧ table.canOpen = true ∧
        table.metadata.fileSize.toNat ≤ table.file.length ∧
        ∃ size, FramedAt table.file offset.toNat size entry := by
  simp only [← readsFramed_iff, ← ensureFileOpenSync_eq_ok_iff]
  rw [tryReadFramedEntry, ready]
  simp only [Bool.not_true, Bool.false_eq_true, if_false]
  cases table.markedForDeletion with
  | true => exact iff_of_false nofun nofun
  | false =>
      rw [if_neg Bool.false_ne_true, bind_eq_ok_iff]
      constructor
      · rintro ⟨_, opened, read⟩
        refine ⟨rfl, opened, ?_⟩
        split at read
        · cases read
        · case isFalse long =>
            refine ⟨Nat.le_of_not_gt long, ?_⟩
            split at read
            · cases read
            · split at read
              · cases read
              · split at read
                · cases read
                · obtain ⟨size, sized, read⟩ := bind_eq_ok_iff.mp read
                  split at read
                  · cases read
                  · case isFalse bounded =>
                      split at read
                      · cases read
                      · case isFalse positive =>
                          split at read
                          · cases read
                          · obtain ⟨buffer, buffered, read⟩ :=
                              bind_eq_ok_iff.mp read
                            obtain ⟨sum, summed, read⟩ :=
                              bind_eq_ok_iff.mp read
                            split at read
                            · cases read
                            · case isFalse same =>
                                rw [not_not.mp same] at summed
                                split at read
                                · case h_1 decoded =>
                                    cases read
                                    exact ⟨size, sized, positive,
                                      Nat.le_of_not_gt bounded, buffer,
                                      buffered, decoded, summed⟩
                                · cases read
      · rintro ⟨-, opened, long, size, reads⟩
        obtain ⟨header, ending, inside⟩ := reads.inside
        obtain ⟨sized, positive, bounded, buffer, buffered, decoded,
          summed⟩ := reads
        refine ⟨(), opened, ?_⟩
        rw [if_neg (Nat.not_lt_of_le long),
          if_neg fun wrong => UInt64.not_lt.mpr wrong.2 below,
          if_neg (Nat.not_le_of_gt inside),
          if_neg (Nat.not_lt_of_le header)]
        refine bind_eq_ok_iff.mpr ⟨size, sized, ?_⟩
        rw [if_neg (Nat.not_lt_of_le bounded), if_neg positive,
          if_neg (Nat.not_lt_of_le ending)]
        refine bind_eq_ok_iff.mpr ⟨buffer, buffered, ?_⟩
        refine bind_eq_ok_iff.mpr ⟨_, summed, ?_⟩
        rw [if_neg (not_not.mpr rfl), decoded]

@[simp]
theorem readWithRetries_eq
    (attempt : Except LsmError SSTableEntry) (left : Nat) :
    readWithRetries attempt left = attempt := by
  induction left with
  | zero => rfl
  | succ left inductionHypothesis =>
      cases attempt with
      | ok entry => rfl
      | error e =>
          rw [readWithRetries]
          split
          · rfl
          · exact inductionHypothesis

/-! ## When both lookups agree -/

/-- Where the index has the key, when the table is ready and the key is not
ruled out before. -/
def located (table : SstableFile) (key : String) : Option (UInt64 × UInt32) :=
  if table.keyMayExist key then table.index.toOption.bind (·.get key)
  else none

/-- The metadata is there, the offset lies before the index, and the size is
one of an entry; in a compressed file it is an offset in a block. -/
def PointsToData (table : SstableFile) (offset : UInt64) (size : UInt32) :
    Prop :=
  table.metadata.indexOffset ≠ 0 ∧ offset < table.metadata.indexOffset ∧
    size ≤ maxEntrySize ∧ (table.blockCompressed = false → size ≠ 0)

/-- An entry of a block that can be had needs a handle for one lookup, and an
offset within the size of the metadata for the other. -/
def BlockReadsMatch (table : SstableFile)
    (decompressVec : Bytes → Except String Bytes) (offset : UInt64)
    (loc : UInt32) (blockCache : Option BlockCache) : Prop :=
  ∀ block size entry,
    table.readSnappyBlockSync decompressVec offset blockCache = .ok block →
      FramedAt block loc.toNat size entry →
        (table.canOpen = true ↔ offset ≤ table.metadata.fileSize)

/-- The entry that the cache has for the offset is read from the file as
well.  What is read from the file lies within the size of the metadata and,
unless the cache has it, in a file of that size which is not to be deleted. -/
structure FramedReadsMatch (table : SstableFile) (offset : UInt64)
    (blockCache : Option BlockCache) : Prop where
  cached : ∀ cached, offset ≤ table.metadata.fileSize →
    table.cachedEntry offset blockCache = some cached →
      table.canOpen = true ∧ ∃ size entry,
        FramedAt table.file offset.toNat size entry ∧
          entry.lookupResult = cached.lookupResult
  stored : ∀ size entry, table.canOpen = true →
    FramedAt table.file offset.toNat size entry →
      offset ≤ table.metadata.fileSize ∧
        (table.cachedEntry offset blockCache = none →
          table.markedForDeletion = false ∧
            table.metadata.fileSize.toNat ≤ table.file.length)

/-- Where the index has the key, it points to data, and the readers of the
format find the same there. -/
def LookupsMatch (table : SstableFile)
    (decompressVec : Bytes → Except String Bytes) (key : String)
    (blockCache : Option BlockCache) : Prop :=
  ∀ offset size, table.located key = some (offset, size) →
    table.PointsToData offset size ∧
      (table.blockCompressed = true →
        table.BlockReadsMatch decompressVec offset size blockCache) ∧
      (table.blockCompressed = false →
        table.FramedReadsMatch offset blockCache)

section

variable {key : String}

theorem isReady_of_keyMayExist (may : table.keyMayExist key = true) :
    table.isReady = true := by
  rw [keyMayExist] at may
  cases ready : table.isReady with
  | true => rfl
  | false =>
      rw [ready] at may
      cases may

theorem inRange_of_keyMayExist (may : table.keyMayExist key = true) :
    ¬ (key < table.metadata.smallestKey ∨
      key > table.metadata.largestKey) ∧
      ¬ (table.bloomFilter.any fun mightContain =>
        !mightContain key) = true := by
  have ready := isReady_of_keyMayExist may
  rw [keyMayExist, ready] at may
  simp only [Bool.not_true, Bool.false_eq_true, if_false] at may
  split at may
  · cases may
  · case isFalse within =>
      refine ⟨within, ?_⟩
      cases bloom : table.bloomFilter with
      | none => exact Bool.false_ne_true
      | some mightContain =>
          rw [bloom] at may
          have inFilter : mightContain key = true := may
          rw [Option.any_some, inFilter]
          exact Bool.false_ne_true

theorem located_eq_some_iff {size : UInt32} :
    table.located key = some (offset, size) ↔
      table.keyMayExist key = true ∧ ∃ index, table.index = .ok index ∧
        index.get key = some (offset, size) := by
  rw [located]
  cases table.keyMayExist key with
  | false => exact iff_of_false nofun nofun
  | true =>
      rw [if_pos rfl]
      cases table.index with
      | error e => exact iff_of_false nofun nofun
      | ok index =>
          constructor
          · exact fun found => ⟨rfl, index, rfl, found⟩
          · rintro ⟨-, _, same, found⟩
            cases same
            exact found

/-- Both lookups end alike where the index does not have the key. -/
theorem lookups_of_not_located (absent : table.located key = none) :
    (table.lookupSync decompressVec key blockCache).toOption =
      (table.lookupPinned decompressVec key blockCache).toOption := by
  rw [lookupSync, lookupPinned]
  cases ready : table.isReady with
  | false => rfl
  | true =>
      cases may : table.keyMayExist key with
      | false => rfl
      | true =>
          obtain ⟨within, bloom⟩ := inRange_of_keyMayExist may
          rw [located, may, if_pos rfl] at absent
          simp only [Bool.not_true, Bool.false_eq_true, if_false,
            if_neg within, if_neg bloom]
          cases loaded : table.index with
          | error e => rfl
          | ok index =>
              rw [loaded] at absent
              have missed : index.get key = none := absent
              simp only [bind, Except.bind, missed]

theorem lookupSync_of_points {size : UInt32}
    (found : table.located key = some (offset, size))
    (points : table.PointsToData offset size) :
    (table.lookupSync decompressVec key blockCache).toOption =
      (table.tryReadEntrySync decompressVec offset size
        blockCache).toOption.map SSTableEntry.lookupResult := by
  obtain ⟨may, index, loaded, hit⟩ := located_eq_some_iff.mp found
  obtain ⟨initialized, below, bounded, sized⟩ := points
  have offsetRight : ¬ (table.metadata.indexOffset = 0 ∨
      offset ≥ table.metadata.indexOffset) :=
    not_or.mpr ⟨initialized, UInt64.not_le.mpr below⟩
  have bounded : ¬ size > maxEntrySize := UInt32.not_lt.mpr bounded
  have blockRight : ¬ (table.blockCompressed = true ∧ size > maxEntrySize) :=
    fun wrong => bounded wrong.2
  have entryRight : ¬ (¬ table.blockCompressed = true ∧
      (size = 0 ∨ size > maxEntrySize)) := by
    rintro ⟨legacy, zero | large⟩
    · exact sized (Bool.eq_false_iff.mpr legacy) zero
    · exact bounded large
  rw [lookupSync, isReady_of_keyMayExist may, may, loaded]
  simp only [Bool.not_true, Bool.false_eq_true, if_false, bind, Except.bind,
    hit, if_neg offsetRight, if_neg blockRight, if_neg entryRight]
  cases table.tryReadEntrySync decompressVec offset size blockCache with
  | error e => rfl
  | ok entry => rfl

theorem lookupSync_of_not_points {size : UInt32}
    (found : table.located key = some (offset, size))
    (astray : ¬ table.PointsToData offset size) :
    table.lookupSync decompressVec key blockCache = .ok .missing := by
  obtain ⟨may, index, loaded, hit⟩ := located_eq_some_iff.mp found
  rw [lookupSync, isReady_of_keyMayExist may, may, loaded]
  simp only [Bool.not_true, Bool.false_eq_true, if_false, bind, Except.bind,
    hit]
  split
  · rfl
  · case isFalse offsetRight =>
      rw [not_or] at offsetRight
      split
      · rfl
      · case isFalse blockRight =>
          split
          · rfl
          · case isFalse entryRight =>
              refine absurd ⟨offsetRight.1, UInt64.not_le.mp offsetRight.2,
                ?_, ?_⟩ astray
              · by_cases compressed : table.blockCompressed = true
                · exact UInt32.not_lt.mp fun large =>
                    blockRight ⟨compressed, large⟩
                · exact UInt32.not_lt.mp fun large =>
                    entryRight ⟨compressed, Or.inr large⟩
              · exact fun legacy zero => entryRight
                  ⟨Bool.eq_false_iff.mp legacy, Or.inl zero⟩

theorem lookupPinned_of_points {size : UInt32}
    (found : table.located key = some (offset, size))
    (points : table.PointsToData offset size)
    (short : offset ≤ table.metadata.fileSize) :
    (table.lookupPinned decompressVec key blockCache).toOption =
      (table.tryReadEntry decompressVec offset size
        blockCache).toOption.map SSTableEntry.lookupResult := by
  obtain ⟨may, index, loaded, hit⟩ := located_eq_some_iff.mp found
  obtain ⟨within, bloom⟩ := inRange_of_keyMayExist may
  obtain ⟨initialized, below, bounded, sized⟩ := points
  have bounded : ¬ size > maxEntrySize := UInt32.not_lt.mpr bounded
  have sizeRight : ¬ (¬ table.blockCompressed = true ∧ size = 0) :=
    fun wrong => sized (Bool.eq_false_iff.mpr wrong.1) wrong.2
  rw [lookupPinned, isReady_of_keyMayExist may, may, loaded]
  simp only [Bool.not_true, Bool.false_eq_true, if_false, if_neg within,
    if_neg bloom, bind, Except.bind, hit, if_neg initialized,
    if_neg (UInt64.not_le.mpr below), if_neg sizeRight, if_neg bounded,
    if_neg (UInt64.not_lt.mpr short), if_neg (not_or.mpr ⟨sizeRight, bounded⟩),
    readWithRetries_eq]
  cases table.tryReadEntry decompressVec offset size blockCache with
  | error e => rfl
  | ok entry => rfl

theorem lookupPinned_of_not_points {size : UInt32}
    (found : table.located key = some (offset, size))
    (astray : ¬ (table.PointsToData offset size ∧
      offset ≤ table.metadata.fileSize)) :
    (table.lookupPinned decompressVec key blockCache).toOption = none := by
  obtain ⟨may, index, loaded, hit⟩ := located_eq_some_iff.mp found
  obtain ⟨within, bloom⟩ := inRange_of_keyMayExist may
  rw [lookupPinned, isReady_of_keyMayExist may, may, loaded]
  simp only [Bool.not_true, Bool.false_eq_true, if_false, if_neg within,
    if_neg bloom, bind, Except.bind, hit]
  split
  · rfl
  · case isFalse initialized =>
      split
      · rfl
      · case isFalse below =>
          split
          · rfl
          · case isFalse sized =>
              split
              · rfl
              · case isFalse bounded =>
                  split
                  · rfl
                  · case isFalse short =>
                      refine absurd ⟨⟨initialized, UInt64.not_le.mp below,
                        UInt32.not_lt.mp bounded, ?_⟩,
                        UInt64.not_lt.mp short⟩ astray
                      exact fun legacy zero =>
                        sized ⟨Bool.eq_false_iff.mp legacy, zero⟩

theorem tryReadCompressedEntry_iff :
    table.tryReadCompressedEntry decompressVec offset loc blockCache =
        .ok entry ↔
      ∃ block size,
        table.readSnappyBlockSync decompressVec offset blockCache =
          .ok block ∧ FramedAt block loc.toNat size entry := by
  rw [tryReadCompressedEntry, bind_eq_ok_iff]
  simp only [parseFramedEntry_eq_ok_iff, exists_and_left]

theorem tryReadEntrySync_compressed
    (compressed : table.blockCompressed = true) :
    (table.tryReadEntrySync decompressVec offset loc blockCache).toOption =
      if table.canOpen = true then
        (table.tryReadCompressedEntry decompressVec offset loc
          blockCache).toOption
      else none := by
  rw [tryReadEntrySync, compressed, if_pos rfl, ← tryReadCompressedEntry,
    canOpen, ensureFileOpenSync]
  cases table.fileOpen with
  | true => rfl
  | false =>
      cases table.config.enableResilientHandling with
      | true => rfl
      | false => rfl

/-- One result under two conditions. -/
theorem ite_eq_ite_iff {α : Type} {first second : Prop} [Decidable first]
    [Decidable second] {result : Option α} :
    ((if first then result else none) = if second then result else none) ↔
      ∀ value, result = some value → (first ↔ second) := by
  cases result with
  | none => exact iff_of_true (by rw [ite_self, ite_self]) nofun
  | some value =>
      by_cases holds : first
      · by_cases holds' : second
        · rw [if_pos holds, if_pos holds']
          exact iff_of_true rfl fun _ _ => iff_of_true holds holds'
        · rw [if_pos holds, if_neg holds']
          exact iff_of_false nofun
            fun same => holds' ((same value rfl).mp holds)
      · by_cases holds' : second
        · rw [if_neg holds, if_pos holds']
          exact iff_of_false nofun
            fun same => holds ((same value rfl).mpr holds')
        · rw [if_neg holds, if_neg holds']
          exact iff_of_true rfl fun _ _ => iff_of_false holds holds'

/-- In a compressed file both read the same entry, each under a condition of
its own. -/
theorem lookups_agree_compressed {size : UInt32}
    (found : table.located key = some (offset, size))
    (points : table.PointsToData offset size)
    (compressed : table.blockCompressed = true) :
    (table.lookupSync decompressVec key blockCache).toOption =
        (table.lookupPinned decompressVec key blockCache).toOption ↔
      table.BlockReadsMatch decompressVec offset size blockCache := by
  have pinned : (table.lookupPinned decompressVec key blockCache).toOption =
      if offset ≤ table.metadata.fileSize then
        (table.tryReadCompressedEntry decompressVec offset size
          blockCache).toOption.map SSTableEntry.lookupResult
      else none := by
    split
    · case isTrue short =>
        rw [lookupPinned_of_points found points short, tryReadEntry,
          compressed, if_pos rfl]
    · case isFalse long =>
        exact lookupPinned_of_not_points found fun right => long right.2
  have sync : (table.lookupSync decompressVec key blockCache).toOption =
      if table.canOpen = true then
        (table.tryReadCompressedEntry decompressVec offset size
          blockCache).toOption.map SSTableEntry.lookupResult
      else none := by
    rw [lookupSync_of_points found points,
      tryReadEntrySync_compressed compressed]
    split
    · rfl
    · rfl
  rw [sync, pinned, ite_eq_ite_iff]
  constructor
  · intro same block length entry had framed
    have read := tryReadCompressedEntry_iff.mpr ⟨block, length, had, framed⟩
    refine same entry.lookupResult ?_
    rw [read]
    rfl
  · intro all result read
    obtain ⟨entry, read, -⟩ := Option.map_eq_some_iff.mp read
    rw [toOption_eq_some_iff, tryReadCompressedEntry_iff] at read
    obtain ⟨block, length, had, framed⟩ := read
    exact all block length entry had framed

/-- In a legacy file one lookup takes the entry of the cache and the other
does not look for it. -/
theorem lookups_agree_legacy {size : UInt32}
    (found : table.located key = some (offset, size))
    (points : table.PointsToData offset size)
    (legacy : table.blockCompressed = false) :
    (table.lookupSync decompressVec key blockCache).toOption =
        (table.lookupPinned decompressVec key blockCache).toOption ↔
      table.FramedReadsMatch offset blockCache := by
  have ready :=
    isReady_of_keyMayExist (located_eq_some_iff.mp found).1
  have sync : ∀ entry, (table.tryReadEntrySync decompressVec offset size
      blockCache).toOption = some entry ↔ _ :=
    fun _ => toOption_eq_some_iff.trans (tryReadEntrySync_legacy_iff legacy)
  rw [lookupSync_of_points found points]
  by_cases short : offset ≤ table.metadata.fileSize
  · rw [lookupPinned_of_points found points short, tryReadEntry, legacy,
      if_neg Bool.false_ne_true]
    cases held : table.cachedEntry offset blockCache with
    | some cached =>
        have pinned : (Except.ok cached : Except LsmError _).toOption.map
            SSTableEntry.lookupResult = some cached.lookupResult := rfl
        rw [pinned, Option.map_eq_some_iff]
        simp only [sync]
        constructor
        · rintro ⟨entry, ⟨opens, length, framed⟩, same⟩
          refine ⟨?_, fun _ _ _ _ => ⟨short, fun none => ?_⟩⟩
          · rintro other - found
            rw [held] at found
            cases found
            exact ⟨opens, length, entry, framed, same⟩
          · rw [held] at none
            cases none
        · intro both
          obtain ⟨opens, length, entry, framed, same⟩ :=
            both.cached cached short held
          exact ⟨entry, ⟨opens, length, framed⟩, same⟩
    | none =>
        have pinned : ∀ entry, (table.tryReadFramedEntry offset).toOption =
            some entry ↔ _ := fun _ =>
          toOption_eq_some_iff.trans (tryReadFramedEntry_iff ready points.2.1)
        constructor
        · intro same
          refine ⟨fun _ _ found => ?_,
            fun length entry opens framed => ⟨short, fun _ => ?_⟩⟩
          · rw [held] at found
            cases found
          · rw [(sync entry).mpr ⟨opens, length, framed⟩] at same
            obtain ⟨other, read, -⟩ := Option.map_eq_some_iff.mp same.symm
            obtain ⟨unmarked, -, long, -⟩ := (pinned other).mp read
            exact ⟨unmarked, long⟩
        · intro both
          have equal : (table.tryReadEntrySync decompressVec offset size
              blockCache).toOption =
                (table.tryReadFramedEntry offset).toOption := by
            refine Option.ext fun entry => ?_
            rw [sync, pinned]
            constructor
            · rintro ⟨opens, length, framed⟩
              obtain ⟨unmarked, long⟩ :=
                (both.stored length entry opens framed).2 held
              exact ⟨unmarked, opens, long, length, framed⟩
            · rintro ⟨-, opens, -, framed⟩
              exact ⟨opens, framed⟩
          rw [equal]
  · rw [lookupPinned_of_not_points found fun right => short right.2,
      Option.map_eq_none_iff, Option.eq_none_iff_forall_ne_some]
    simp only [ne_eq, sync]
    constructor
    · intro failed
      refine ⟨fun _ right => absurd right short, ?_⟩
      exact fun length entry opens framed =>
        absurd ⟨opens, length, framed⟩ (failed entry)
    · rintro both entry ⟨opens, length, framed⟩
      exact short (both.stored length entry opens framed).1

/-- Both lookups return the same result, or both an error, exactly when the
index points to data where it has the key and the readers of the format find
the same there. -/
theorem lookups_agree_iff
    (table : SstableFile) (decompressVec : Bytes → Except String Bytes)
    (key : String) (blockCache : Option BlockCache) :
    (table.lookupSync decompressVec key blockCache).toOption =
        (table.lookupPinned decompressVec key blockCache).toOption ↔
      table.LookupsMatch decompressVec key blockCache := by
  cases found : table.located key with
  | none =>
      refine iff_of_true (lookups_of_not_located found) ?_
      intro offset size other
      rw [found] at other
      cases other
  | some location =>
      obtain ⟨offset, size⟩ := location
      have only : table.LookupsMatch decompressVec key blockCache ↔
          table.PointsToData offset size ∧
            (table.blockCompressed = true →
              table.BlockReadsMatch decompressVec offset size blockCache) ∧
            (table.blockCompressed = false →
              table.FramedReadsMatch offset blockCache) := by
        constructor
        · exact fun all => all offset size found
        · intro here offset' size' other
          rw [found] at other
          cases other
          exact here
      rw [only]
      by_cases points : table.PointsToData offset size
      · rw [and_iff_right points]
        cases format : table.blockCompressed with
        | true =>
            rw [lookups_agree_compressed found points format]
            exact ⟨fun same => ⟨fun _ => same, nofun⟩, fun both => both.1 rfl⟩
        | false =>
            rw [lookups_agree_legacy found points format]
            exact ⟨fun same => ⟨nofun, fun _ => same⟩, fun both => both.2 rfl⟩
      · rw [lookupSync_of_not_points found points,
          lookupPinned_of_not_points found fun right => points right.1]
        exact iff_of_false nofun fun both => points both.1

/-- A legacy table whose index has one key behind its data. -/
def strayTable : SstableFile where
  path := "L0.sst"
  config := ⟨3, true⟩
  metadata := ⟨4096, "k", "k", 64⟩
  index := .ok ⟨[(strBytes "k", 64, 20)]⟩
  bloomFilter := none
  file := List.replicate 4096 0
  fileOpen := true
  markedForDeletion := false
  isReady := true
  blockCompressed := false
  decompressedBlock := none
  short := by
    rw [List.length_replicate]
    decide

/-- One lookup reports the corrupt index, the other that there is no such
key. -/
theorem stray_offset_is_missing :
    (strayTable.lookupSync .ok "k" none).toOption = some .missing ∧
      (strayTable.lookupPinned .ok "k" none).toOption = none := by
  have found : strayTable.located "k" = some (64, 20) := by decide
  have astray : ¬ strayTable.PointsToData 64 20 :=
    fun points => absurd points.2.1 (by decide)
  rw [lookupSync_of_not_points found astray]
  exact ⟨rfl, lookupPinned_of_not_points found fun both => astray both.1⟩

end

end SstableFile

end F4kvsLsm
