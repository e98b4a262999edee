import F4kvsLsm.Lib.LastMatch
import F4kvsLsm.Storage.Layers
import F4kvsLsm.Storage.Lookups
import F4kvsLsm.Storage.TableWriter

/-!
# Opening a table file and reading all of it

Opening reads the metadata and nothing else; the index is loaded on first use.
The scans and the read of all entries go through the loaded index.
-/

namespace F4kvsLsm

open ByteCodec

namespace TableFile

/-! ## Opening -/

/-- The bytes that one round of the search looks at. -/
def metadataWindow : Nat := 2048

/-- The last place of a window from which metadata can be decoded; the last
four bytes are left to the checksum. -/
def lastMetadata (window : Bytes) : Option (Nat × SSTableMetadata) :=
  let fields := window.take (window.length - 4)
  LastMatch.lastBelow
    (fun i => deserialize SSTableMetadata.decode (fields.drop i))
    fields.length

/-- The windows from the end of the file; the metadata are returned with their
offset and their size. -/
def searchMetadata (file : Bytes) :
    Nat → Nat → Except LsmError (Option (SSTableMetadata × Nat × Nat))
  | 0, _ => .ok none
  | fuel + 1, pos =>
      if pos = 0 then .ok none
      else
        let readSize := min pos metadataWindow
        let pos := pos - readSize
        match readExactAt file (UInt64.ofNat pos) readSize with
        | .error failure => .error failure
        | .ok window =>
            match lastMetadata window with
            | some (i, metadata) =>
                .ok (some (metadata, pos + i, readSize - 4 - i))
            | none => searchMetadata file fuel pos

/-- What a table knows after its file was opened. -/
structure OpenedTable where
  metadata : SSTableMetadata
  blockCompressed : Bool

/-- The magic of a compressed file; a file that is too short has none. -/
def isCompressed (file : Bytes) : Bool :=
  match readExactAt file 0 4 with
  | .ok mag => mag = compressedMagic
  | .error _ => false

/-- `try_read_metadata_blocking`: the metadata, if their checksum is right. -/
def tryReadMetadata (file : Bytes) : Except LsmError OpenedTable := do
  let found ← searchMetadata file file.length file.length
  match found with
  | none => .error (.corruption "Failed to read metadata")
  | some (metadata, offset, size) =>
      let stored ← readU32LeAt file (UInt64.ofNat (offset + size))
      let buffer ← readExactAt file (UInt64.ofNat offset) size
      let computed := (crc32 buffer).toNat
      if stored ≠ computed then
        .error (.corruption ("SSTable metadata checksum mismatch: stored=" ++
          toString stored ++ ", computed=" ++ toString computed ++
          ". Metadata may be corrupted."))
      else .ok ⟨metadata, isCompressed file⟩

namespace OpenedTable

variable (decompressVec : Bytes → Except String Bytes) (opened : OpenedTable)

def indexBytes (buffer : Bytes) : Except LsmError Bytes :=
  if opened.blockCompressed then
    SstableFile.snapDecompress decompressVec buffer
  else .ok buffer

def ensureIndexLoaded (path : String) (file : Bytes) :
    Except LsmError PackedIndex :=
  let indexStart := opened.metadata.indexOffset
  let indexSize := opened.metadata.indexSize
  if indexSize = 0 then
    .error (.corruption
      ("SSTable metadata has zero index_size (not opened?): " ++ path.quote))
  else do
    let buffer ← readExactAt file indexStart indexSize.toNat
    let stored ← readU32LeAt file (indexStart + indexSize)
    let computed := (crc32 buffer).toNat
    if stored ≠ computed then
      .error (.corruption ("SSTable index checksum mismatch: stored=" ++
        toString stored ++ ", computed=" ++ toString computed ++
        ". Index data may be corrupted."))
    else do
      let bytes ← opened.indexBytes decompressVec buffer
      let decoded ← PackedIndex.decode bytes
      if decoded.recOff.length ≠ opened.metadata.entryCount.toNat then
        .error (.corruption ("SSTable index size " ++
          toString decoded.recOff.length ++
          " does not match entry_count " ++
          toString opened.metadata.entryCount ++ ": " ++ path.quote))
      else .ok decoded

end OpenedTable

end TableFile

/-! ## Keys as strings -/

/-- The bytes begin a character that goes on behind them. -/
def beginsCharacter (part : Bytes) : Bool :=
  (strFromBytes (part ++ [0x80])).isSome ||
    (strFromBytes (part ++ [0x80, 0x80])).isSome

/-- The character at the front with its length, or the length of what cannot
be one. -/
def frontCharacter (raw : Bytes) : Option String × Nat :=
  match [1, 2, 3, 4].find? fun n =>
      n ≤ raw.length ∧ (strFromBytes (raw.take n)).isSome with
  | some n => (strFromBytes (raw.take n), n)
  | none =>
      if raw.length ≥ 3 ∧ beginsCharacter (raw.take 3) then (none, 3)
      else if raw.length ≥ 2 ∧ beginsCharacter (raw.take 2) then (none, 2)
      else (none, 1)

/-- Every part that is no character becomes a replacement character. -/
def replaceInvalid : Nat → Bytes → String
  | 0, _ => ""
  | fuel + 1, raw =>
      if raw.isEmpty then ""
      else
        let (character, n) := frontCharacter raw
        character.getD "\uFFFD" ++ replaceInvalid fuel (raw.drop n)

def fromUtf8Lossy (raw : Bytes) : String :=
  match strFromBytes raw with
  | some s => s
  | none => replaceInvalid raw.length raw

example : fromUtf8Lossy [0x61, 0xE4, 0xBD, 0x61, 0xFF] = "a\uFFFDa\uFFFD" := by
  decide +kernel

/-! ## Reading through the index -/

namespace FlatIndex

/-- The records from the first key that is not below `start`. -/
def recordsFrom (index : FlatIndex) (start : Bytes) : List IndexRecord :=
  index.records.drop (index.partitionPoint start)

end FlatIndex

namespace SstableFile

variable (table : SstableFile) (decompressVec : Bytes → Except String Bytes)

/-- One round of `get_all_entries`. -/
def readListed (record : IndexRecord) : Except LsmError SSTableEntry :=
  let key := fromUtf8Lossy record.1
  let offset := record.2.1
  let size := record.2.2
  -- the deletion mark is looked at again here, in case it was set meanwhile
  if offset > table.metadata.fileSize then
    .error (.internal ("Invalid offset " ++ toString offset ++ " for key '" ++
      key ++ "' in " ++ table.debugPath ++ " (file size " ++
      toString table.metadata.fileSize ++ ")"))
  else if (¬ table.blockCompressed ∧ size = 0) ∨ size > maxEntrySize then
    .error (.internal ("Invalid entry size " ++ toString size ++
      " for key '" ++ key ++ "' in " ++ table.debugPath))
  else
    match table.tryReadEntry decompressVec offset size none with
    | .ok entry => .ok entry
    | .error failure =>
        .error (.internal ("Failed to read key '" ++ key ++ "' at offset " ++
          toString offset ++ " in " ++ table.debugPath ++ ": " ++
          failure.display))

def getAllEntries : Except LsmError (List SSTableEntry) :=
  if !table.isReady then
    .error (.internal ("Cannot read all entries from SSTable that is not " ++
      "ready: " ++ table.debugPath))
  else if table.markedForDeletion then
    .error (.internal ("Cannot read all entries from SSTable marked for " ++
      "deletion: " ++ table.debugPath))
  else do
    let index ← table.index
    index.records.mapM (table.readListed decompressVec)

/-- The entries of some records; those that cannot be read are left out. -/
def readLocated (records : List IndexRecord) : List (String × Value × Bool) :=
  records.filterMap fun record =>
    (table.tryReadEntry decompressVec record.2.1 record.2.2 none).toOption.map
      fun entry => (fromUtf8Lossy record.1, entry.value, entry.deleted)

def scanPrefix (keyPrefix : String) : Except LsmError (List String) := do
  let index ← table.index
  .ok (((index.recordsFrom (strBytes keyPrefix)).takeWhile fun record =>
    (strBytes keyPrefix).isPrefixOf record.1).map
      fun record => fromUtf8Lossy record.1)

def scanPrefixLayer (keyPrefix : String) :
    Except LsmError (List (String × Value × Bool)) :=
  if !table.isReady then .ok []
  else do
    table.ensureFileOpenSync
    let index ← table.index
    .ok (table.readLocated decompressVec
      ((index.recordsFrom (strBytes keyPrefix)).takeWhile fun record =>
        (strBytes keyPrefix).isPrefixOf record.1))

/-- The record lies below the exclusive end of a range. -/
def beforeEnd (rangeEnd : String) (record : IndexRecord) : Bool :=
  match exclusiveRangeEnd rangeEnd with
  | some bound => record.1 < strBytes bound
  | none => true

def scanRangeLayer (start rangeEnd : String) :
    Except LsmError (List (String × Value × Bool)) :=
  if !table.isReady then .ok []
  else do
    table.ensureFileOpenSync
    let index ← table.index
    .ok (table.readLocated decompressVec
      ((index.recordsFrom (strBytes start)).takeWhile (beforeEnd rangeEnd)))

def scanRange (start rangeEnd : String) : Except LsmError (List String) :=
  (table.scanRangeLayer decompressVec start rangeEnd).map Memtable.liveKeys

def scanAll : Except LsmError (List (String × Value × Bool)) := do
  let index ← table.index
  .ok (table.readLocated decompressVec index.records)

end SstableFile

end F4kvsLsm
