import F4kvsLsm.Lib.PartitionPoint
import F4kvsLsm.Storage.BlockCache
import F4kvsLsm.Storage.FramedEntry

/-!
# Table files

A table file as a lookup meets it, with the index that was loaded from it and
what is held in memory.  Index, metadata and file may contradict each other.
Entries lie in Snappy blocks or, in legacy files, directly in the file.
-/

namespace F4kvsLsm

open ByteCodec

/-! ## Index and metadata -/

/-- Packed, sorted index: keys with an offset and a size. -/
structure FlatIndex where
  records : List (Bytes × UInt64 × UInt32)

namespace FlatIndex

/-- First position whose key is not below `key`. -/
def partitionPoint (index : FlatIndex) (key : Bytes) : Nat :=
  BinarySearch.partitionPoint (fun record => decide (record.1 < key))
    index.records

def get (index : FlatIndex) (key : String) : Option (UInt64 × UInt32) :=
  match index.records[index.partitionPoint (strBytes key)]? with
  | some (found, location) =>
      if found = strBytes key then some location else none
  | none => none

end FlatIndex

structure SSTableMetadata where
  fileSize : UInt64
  smallestKey : String
  largestKey : String
  indexOffset : UInt64

structure SstableConfig where
  fileRetryAttempts : Nat
  enableResilientHandling : Bool

/-- `index` is what `index_guard` returns, and `fileOpen` says whether there
is an open handle after it.  `decompressedBlock` is the last block that was
decompressed, with its offset. -/
structure SstableFile where
  path : String
  config : SstableConfig
  metadata : SSTableMetadata
  index : Except LsmError FlatIndex
  bloomFilter : Option (String → Bool)
  file : Bytes
  fileOpen : Bool
  markedForDeletion : Bool
  isReady : Bool
  blockCompressed : Bool
  decompressedBlock : Option (UInt64 × Bytes)
  short : file.length < 2 ^ 63

/-! ## Reading the file -/

def readExactAt (file : Bytes) (offset : UInt64) (length : Nat) :
    Except LsmError Bytes :=
  if length = 0 ∨ offset.toNat + length ≤ file.length then
    .ok ((file.drop offset.toNat).take length)
  else
    .error (.io ("Unexpected EOF while reading " ++ toString length ++
      " bytes at offset " ++ toString offset))

def readU32LeAt (file : Bytes) (offset : UInt64) : Except LsmError Nat :=
  (readExactAt file offset 4).map fromLeBytes

/-- A file holds an intact entry at an offset: a size, the encoded entry and
a checksum of both. -/
structure FramedAt (file : Bytes) (offset size : Nat)
    (entry : SSTableEntry) : Prop where
  sized : fromLeBytes ((file.drop offset).take 4) = size
  positive : size ≠ 0
  bounded : size ≤ maxFramedEntry
  inside : offset + 4 + size + 4 ≤ file.length
  summed : fromLeBytes ((file.drop (offset + 4 + size)).take 4) =
    (crc32 (encodeU32 size ++ (file.drop (offset + 4)).take size)).toNat
  decoded : deserialize SSTableEntry.decode
    ((file.drop (offset + 4)).take size) = some entry

theorem readExactAt_eq_ok_iff
    {file : Bytes} {offset : UInt64} {length : Nat} {bytes : Bytes}
    (nonempty : length ≠ 0) :
    readExactAt file offset length = .ok bytes ↔
      offset.toNat + length ≤ file.length ∧
        (file.drop offset.toNat).take length = bytes := by
  rw [readExactAt]
  split
  · case isTrue inside =>
      rw [Except.ok.injEq]
      exact (and_iff_right (inside.resolve_left nonempty)).symm
  · case isFalse outside =>
      rw [not_or] at outside
      exact iff_of_false nofun fun whole => outside.2 whole.1

theorem readU32LeAt_eq_ok_iff
    {file : Bytes} {offset : UInt64} {n : Nat} :
    readU32LeAt file offset = .ok n ↔
      offset.toNat + 4 ≤ file.length ∧
        fromLeBytes ((file.drop offset.toNat).take 4) = n := by
  rw [readU32LeAt]
  cases found : readExactAt file offset 4 with
  | ok bytes =>
      obtain ⟨inside, rfl⟩ := (readExactAt_eq_ok_iff (by decide)).mp found
      rw [Except.map, Except.ok.injEq]
      exact (and_iff_right inside).symm
  | error e =>
      refine iff_of_false nofun fun whole => ?_
      rw [(readExactAt_eq_ok_iff (by decide)).mpr ⟨whole.1, rfl⟩] at found
      cases found

/-- The block reader returns the intact entries. -/
theorem parseFramedEntry_eq_ok_iff
    {file : Bytes} {offset : Nat} {entry : SSTableEntry} :
    parseFramedEntry file offset = .ok entry ↔
      ∃ size, FramedAt file offset size entry := by
  rw [parseFramedEntry]
  constructor
  · intro parsed
    split at parsed
    · cases parsed
    · dsimp only at parsed
      split at parsed
      · cases parsed
      · case isFalse sized =>
          split at parsed
          · cases parsed
          · case isFalse inside =>
              split at parsed
              · cases parsed
              · case isFalse summed =>
                  split at parsed
                  · case h_1 decoded =>
                      cases parsed
                      rw [not_or] at sized
                      exact ⟨_, rfl, sized.1, Nat.le_of_not_gt sized.2,
                        Nat.le_of_not_gt inside, not_not.mp summed, decoded⟩
                  · cases parsed
  · rintro ⟨size, rfl, positive, bounded, inside, summed, decoded⟩
    have header : ¬ offset + 8 > file.length := by omega
    have sized := not_or.mpr ⟨positive, Nat.not_lt_of_le bounded⟩
    dsimp only
    rw [if_neg header, if_neg sized, if_neg (Nat.not_lt_of_le inside),
      if_neg (not_not.mpr summed), decoded]

namespace SstableFile

variable (table : SstableFile)

/-- The path as an error prints it. -/
def debugPath : String :=
  table.path.quote

/-- Fast check: key could exist in this table (range and bloom). -/
def keyMayExist (key : String) : Bool :=
  if !table.isReady then false
  else if key < table.metadata.smallestKey ∨
      key > table.metadata.largestKey then false
  else
    match table.bloomFilter with
    | some mightContain => mightContain key
    | none => true

def blockCacheKey (offset : UInt64) : String :=
  table.path ++ ":" ++ toString offset

def ensureFileOpenSync : Except LsmError Unit :=
  if table.fileOpen then .ok ()
  else if table.config.enableResilientHandling then .ok ()
  else
    .error (.internal "File not open and resilient handling is disabled")

/-- There is an open handle, or it is opened again on a read. -/
def canOpen : Bool :=
  table.fileOpen || table.config.enableResilientHandling

theorem ensureFileOpenSync_eq_ok_iff :
    table.ensureFileOpenSync = .ok () ↔ table.canOpen = true := by
  rw [ensureFileOpenSync, canOpen]
  cases table.fileOpen with
  | true => exact iff_of_true rfl rfl
  | false =>
      cases table.config.enableResilientHandling with
      | true => exact iff_of_true rfl rfl
      | false => exact iff_of_false nofun nofun

/-! ## Compressed files -/

section

variable (decompressVec : Bytes → Except String Bytes)

def snapDecompress (comp : Bytes) : Except LsmError Bytes :=
  match decompressVec comp with
  | .ok raw => .ok raw
  | .error text => .error (.corruption ("snappy decompress: " ++ text))

/-- The block at an offset when it is held in memory: the last decompressed
one, or one of the cache. -/
def heldBlock (blockOff : UInt64) (blockCache : Option BlockCache) :
    Option Bytes :=
  let cached := blockCache.bind fun cache =>
    (cache.get (table.path ++ ":blk:" ++ toString blockOff)).2
  match table.decompressedBlock with
  | some (offset, data) => if offset = blockOff then some data else cached
  | none => cached

def maxBlock : Nat := 128 * 1024 * 1024

def readSnappyBlockSync (blockOff : UInt64) (blockCache : Option BlockCache) :
    Except LsmError Bytes :=
  match table.heldBlock blockOff blockCache with
  | some block => .ok block
  | none => do
      table.ensureFileOpenSync
      let uncLen ← readU32LeAt table.file blockOff
      let compLen ← readU32LeAt table.file (blockOff + 4)
      if uncLen = 0 ∨ uncLen > maxBlock ∨ compLen = 0 ∨ compLen > maxBlock then
        .error (.corruption ("invalid snappy block header at " ++
          toString blockOff ++ " unc=" ++ toString uncLen ++ " comp=" ++
          toString compLen))
      else do
        let comp ← readExactAt table.file (blockOff + 8) compLen
        let raw ← snapDecompress decompressVec comp
        if raw.length ≠ uncLen then
          .error (.corruption ("snappy block length mismatch at " ++
            toString blockOff ++ ": got " ++ toString raw.length ++
            " want " ++ toString uncLen))
        else .ok raw

def tryReadCompressedEntry (blockOff : UInt64) (loc : UInt32)
    (blockCache : Option BlockCache) : Except LsmError SSTableEntry := do
  let block ← table.readSnappyBlockSync decompressVec blockOff blockCache
  parseFramedEntry block loc.toNat

end

end SstableFile

end F4kvsLsm
