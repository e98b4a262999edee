import F4kvsLsm.Core.Directory
import F4kvsLsm.Lib.Memo

/-!
# Lookups with what they leave in memory

A table keeps the block that it decompressed last, and all tables share a
cache: blocks of compressed files lie in it under one kind of key, entries of
legacy files under another.  Every lookup that goes through these memories
answers as one that reads the file.
-/

namespace F4kvsLsm

open ByteCodec

/-! ## Memories -/

/-- The last block of a table, with its offset, and the cache, if the lookup
was given it. -/
structure ReadMemory where
  decompressedBlock : Option (UInt64 × Bytes)
  blockCache : Option BlockCache

def BlockCache.dataAt (cache : BlockCache) (key : String) : Option Bytes :=
  (cache.blocks[key]?).map CachedBlock.data

namespace ReadMemory

variable (memory : ReadMemory)

/-- The last block, if it is the one at the offset. -/
def lastBlock (blockOff : UInt64) : Option Bytes :=
  match memory.decompressedBlock with
  | some (offset, data) => if offset = blockOff then some data else none
  | none => none

def holdBlock (blockOff : UInt64) (data : Bytes) : ReadMemory :=
  { memory with decompressedBlock := some (blockOff, data) }

/-- `get_sync`, when there is a cache. -/
def getCached (key : String) : Option Bytes × ReadMemory :=
  match memory.blockCache with
  | some cache =>
      ((cache.get key).2,
        { memory with blockCache := some (cache.get key).1 })
  | none => (none, memory)

/-- `put_sync`, when there is a cache. -/
def putCached (key : String) (data : Bytes) : ReadMemory :=
  { memory with blockCache := memory.blockCache.map (·.put key data) }

end ReadMemory

namespace SstableFile

variable (table : SstableFile) (decompressVec : Bytes → Except String Bytes)

/-- The table without its last block. -/
def forgotten : SstableFile :=
  { table with decompressedBlock := none }

def blkCacheKey (blockOff : UInt64) : String :=
  table.path ++ ":blk:" ++ toString blockOff

/-- `read_snappy_block_sync`: the last block, the cache, then the file. -/
def readSnappyBlockCaching (blockOff : UInt64) (memory : ReadMemory) :
    Except LsmError Bytes × ReadMemory :=
  match memory.lastBlock blockOff with
  | some data => (.ok data, memory)
  | none =>
      let (hit, memory) := memory.getCached (table.blkCacheKey blockOff)
      match hit with
      | some data => (.ok data, memory.holdBlock blockOff data)
      | none =>
          match table.forgotten.readSnappyBlockSync decompressVec blockOff
              none with
          | .error failure => (.error failure, memory)
          | .ok raw =>
              (.ok raw, (memory.putCached (table.blkCacheKey blockOff)
                raw).holdBlock blockOff raw)

/-- `try_read_compressed_entry` -/
def readCompressedCaching (offset : UInt64) (loc : UInt32)
    (memory : ReadMemory) : Except LsmError SSTableEntry × ReadMemory :=
  let (block, memory) :=
    table.readSnappyBlockCaching decompressVec offset memory
  (block >>= fun block => parseFramedEntry block loc.toNat, memory)

/-- `try_read_entry_sync`; entries of legacy files are not kept. -/
def readEntrySyncCaching (offset : UInt64) (loc : UInt32)
    (memory : ReadMemory) : Except LsmError SSTableEntry × ReadMemory :=
  match table.ensureFileOpenSync with
  | .error failure => (.error failure, memory)
  | .ok () =>
      if table.blockCompressed then
        table.readCompressedCaching decompressVec offset loc memory
      else
        (table.forgotten.tryReadEntrySync decompressVec offset loc none,
          memory)

/-- `try_read_entry`; the cache is asked before anything is checked. -/
def readEntryCaching (offset : UInt64) (loc : UInt32) (memory : ReadMemory) :
    Except LsmError SSTableEntry × ReadMemory :=
  if table.blockCompressed then
    table.readCompressedCaching decompressVec offset loc memory
  else
    let (cached, memory) := memory.getCached (table.blockCacheKey offset)
    match cached.bind (deserialize SSTableEntry.decode) with
    | some entry => (.ok entry, memory)
    | none =>
        match table.tryReadFramedEntry offset with
        | .error failure => (.error failure, memory)
        | .ok entry =>
            (.ok entry,
              memory.putCached (table.blockCacheKey offset) entry.encode)

/-- The loop of `lookup_with_reader_guard`, with so many attempts left after
the first one. -/
def readRetrying (offset : UInt64) (loc : UInt32) :
    Nat → ReadMemory → Except LsmError SSTableEntry × ReadMemory
  | 0, memory => table.readEntryCaching decompressVec offset loc memory
  | left + 1, memory =>
      match table.readEntryCaching decompressVec offset loc memory with
      | (.ok entry, memory) => (.ok entry, memory)
      | (.error e, memory) =>
          if e.isPermanent then (.error e, memory)
          else readRetrying offset loc left memory

/-- `lookup_sync` -/
def lookupSyncCaching (key : String) (memory : ReadMemory) :
    Except LsmError SstableLookupResult × ReadMemory :=
  if !table.isReady then
    (.error (.internal ("Cannot read from SSTable that is not ready: " ++
      table.debugPath)), memory)
  else if !table.keyMayExist key then (.ok .missing, memory)
  else
    match table.index with
    | .error failure => (.error failure, memory)
    | .ok index =>
        match index.get key with
        | none => (.ok .missing, memory)
        | some (offset, size) =>
            if table.metadata.indexOffset = 0 ∨
                offset ≥ table.metadata.indexOffset then (.ok .missing, memory)
            else if table.blockCompressed ∧ size > maxEntrySize then
              (.ok .missing, memory)
            else if ¬ table.blockCompressed ∧
                (size = 0 ∨ size > maxEntrySize) then (.ok .missing, memory)
            else
              let (entry, memory) :=
                table.readEntrySyncCaching decompressVec offset size memory
              (entry >>= fun entry => .ok entry.lookupResult, memory)

/-- `lookup_with_reader_guard` -/
def lookupPinnedCaching (key : String) (memory : ReadMemory) :
    Except LsmError SstableLookupResult × ReadMemory :=
  if !table.isReady then
    (.error (.internal ("Cannot read from SSTable that is not ready: " ++
      table.debugPath ++ ". The SSTable may still be being written or " ++
      "metadata/index may not be loaded.")), memory)
  else if !table.keyMayExist key then (.ok .missing, memory)
  else if key < table.metadata.smallestKey ∨
      key > table.metadata.largestKey then (.ok .missing, memory)
  else if table.bloomFilter.any fun mightContain => !mightContain key then
    (.ok .missing, memory)
  else
    match table.index with
    | .error failure => (.error failure, memory)
    | .ok index =>
        match index.get key with
        | none => (.ok .missing, memory)
        | some (offset, size) =>
            if table.metadata.indexOffset = 0 then
              (.error (.internal
                ("SSTable metadata index_offset is 0 (uninitialized). " ++
                  "This indicates the SSTable was not properly opened. " ++
                  "Path: " ++ table.debugPath)), memory)
            else if offset ≥ table.metadata.indexOffset then
              (.error (.corruption ("Index offset " ++ toString offset ++
                " for key '" ++ key ++
                "' is in index/metadata section (index starts at " ++
                toString table.metadata.indexOffset ++
                "). This indicates index corruption. SSTable: " ++
                table.debugPath)), memory)
            else if ¬ table.blockCompressed ∧ size = 0 then
              (.error (.corruption ("Index entry size is zero for key '" ++
                key ++ "' at offset " ++ toString offset ++ ". SSTable: " ++
                table.debugPath)), memory)
            else if size > maxEntrySize then
              (.error (.corruption ("Index entry size " ++ toString size ++
                " for key '" ++ key ++ "' at offset " ++ toString offset ++
                " is unreasonably large. SSTable: " ++ table.debugPath)),
                memory)
            else if offset > table.metadata.fileSize then
              (.error (.corruption ("Index offset " ++ toString offset ++
                " exceeds file size " ++ toString table.metadata.fileSize)),
                memory)
            else if (¬ table.blockCompressed ∧ size = 0) ∨
                size > maxEntrySize then
              (.error (.corruption ("Invalid entry size " ++ toString size ++
                " (expected 1-" ++ toString maxEntrySize ++ " bytes)")),
                memory)
            else
              let (entry, memory) :=
                table.readRetrying decompressVec offset size
                  (table.config.fileRetryAttempts - 1) memory
              (entry >>= fun entry => .ok entry.lookupResult, memory)

end SstableFile

/-! ## Lookups in many tables -/

/-- A lookup in one of the tables: by a reader that has pinned it or without a
runtime, by a clone, whose last block goes with it, or by the table itself,
with the cache or without it. -/
structure TableLookup (ι : Type) where
  table : ι
  key : String
  pinned : Bool
  clone : Bool
  cached : Bool

/-- The last blocks of the tables and the cache that they share. -/
structure SharedMemory (ι : Type) where
  lastBlock : ι → Option (UInt64 × Bytes)
  blockCache : BlockCache

namespace SharedMemory

variable {ι : Type}

def new (maxSize : Nat) : SharedMemory ι :=
  ⟨fun _ => none, .new maxSize⟩

def forLookup (shared : SharedMemory ι) (lookup : TableLookup ι) :
    ReadMemory where
  decompressedBlock :=
    if lookup.clone then none else shared.lastBlock lookup.table
  blockCache := if lookup.cached then some shared.blockCache else none

/-- What a lookup leaves. -/
def after [DecidableEq ι] (shared : SharedMemory ι) (lookup : TableLookup ι)
    (memory : ReadMemory) : SharedMemory ι where
  lastBlock :=
    if lookup.clone then shared.lastBlock
    else Function.update shared.lastBlock lookup.table
      memory.decompressedBlock
  blockCache := memory.blockCache.getD shared.blockCache

variable (decompressVec : Bytes → Except String Bytes)
  (tables : ι → SstableFile)

def lookup [DecidableEq ι] (shared : SharedMemory ι)
    (lookup : TableLookup ι) :
    Except LsmError SstableLookupResult × SharedMemory ι :=
  let (answer, memory) :=
    if lookup.pinned then
      (tables lookup.table).lookupPinnedCaching decompressVec lookup.key
        (shared.forLookup lookup)
    else
      (tables lookup.table).lookupSyncCaching decompressVec lookup.key
        (shared.forLookup lookup)
  (answer, shared.after lookup memory)

/-- The same lookup with nothing in memory. -/
def plainLookup (lookup : TableLookup ι) :
    Except LsmError SstableLookupResult :=
  if lookup.pinned then
    (tables lookup.table).forgotten.lookupPinned decompressVec lookup.key none
  else
    (tables lookup.table).forgotten.lookupSync decompressVec lookup.key none

end SharedMemory

/-! ## Keys of the cache -/

/-- The paths of the tables are apart and those of table files. -/
structure TablePaths {ι : Type} (tables : ι → SstableFile) : Prop where
  apart : ∀ i j, (tables i).path = (tables j).path → i = j
  named : ∀ i, sstExtension <:+ (tables i).path.toList

/-- What is kept in the cache: a block of a compressed file or an entry of a
legacy file. -/
inductive Kept (ι : Type) where
  | block (table : ι) (offset : UInt64)
  | entry (table : ι) (offset : UInt64)

namespace Kept

variable {ι : Type} (tables : ι → SstableFile)

def cacheKey : Kept ι → String
  | .block table offset => (tables table).blkCacheKey offset
  | .entry table offset => (tables table).blockCacheKey offset

/-- What the file gives. -/
def source (decompressVec : Bytes → Except String Bytes) :
    Kept ι → Except LsmError Bytes
  | .block table offset =>
      (tables table).forgotten.readSnappyBlockSync decompressVec offset none
  | .entry table offset =>
      ((tables table).tryReadFramedEntry offset).map SSTableEntry.encode

end Kept

theorem toList_toString_uint64 (offset : UInt64) :
    (toString offset).toList = Nat.toDigits 10 offset.toNat := by
  change (Nat.repr offset.toNat).toList = _
  rw [Nat.repr, String.toList_ofList]

theorem colon_notMem_toDigits (number : Nat) :
    ':' ∉ Nat.toDigits 10 number := by
  intro member
  obtain ⟨digit, small, same⟩ := Digits.mem_toDigits (by decide) member
  have none : ∀ digit < 10, ':' ≠ Nat.digitChar digit := by decide
  exact none digit small same

namespace SstableFile

theorem blkCacheKey_toList (table : SstableFile) (offset : UInt64) :
    (table.blkCacheKey offset).toList =
      (table.path.toList ++ [':', 'b', 'l', 'k']) ++ ':' ::
        Nat.toDigits 10 offset.toNat := by
  rw [blkCacheKey, String.toList_append, String.toList_append,
    toList_toString_uint64]
  simp

theorem blockCacheKey_toList (table : SstableFile) (offset : UInt64) :
    (table.blockCacheKey offset).toList =
      table.path.toList ++ ':' :: Nat.toDigits 10 offset.toNat := by
  rw [blockCacheKey, String.toList_append, String.toList_append,
    toList_toString_uint64]
  simp

end SstableFile

/-- The digits behind the last colon are those of the offset. -/
theorem offset_of_digits {first second : List Char} {offset offset' : UInt64}
    (same : first ++ ':' :: Nat.toDigits 10 offset.toNat =
      second ++ ':' :: Nat.toDigits 10 offset'.toNat) :
    first = second ∧ offset = offset' := by
  obtain ⟨fronts, digits⟩ := Digits.append_last_separator_inj
    (colon_notMem_toDigits _) (colon_notMem_toDigits _) same
  exact ⟨fronts, UInt64.toNat.inj
    (Digits.toDigits_inj (by decide) (by decide) digits)⟩

/-- No path of a table file ends like the key of a block. -/
theorem not_sstExtension_blk (front : List Char) :
    ¬ sstExtension <:+ front ++ [':', 'b', 'l', 'k'] := by
  intro suffix
  have ends := List.suffix_append front [':', 'b', 'l', 'k']
  have same := (List.suffix_of_suffix_length_le suffix ends
    (Nat.le_refl 4)).eq_of_length rfl
  exact absurd same (by decide)

/-- Different things are kept under different keys. -/
theorem TablePaths.cacheKey_inj {ι : Type} {tables : ι → SstableFile}
    (paths : TablePaths tables) {kept kept' : Kept ι}
    (same : kept.cacheKey tables = kept'.cacheKey tables) : kept = kept' := by
  have lists := congrArg String.toList same
  cases kept with
  | block table offset =>
      cases kept' with
      | block table' offset' =>
          simp only [Kept.cacheKey, SstableFile.blkCacheKey_toList] at lists
          obtain ⟨fronts, rfl⟩ := offset_of_digits lists
          rw [paths.apart table table'
            (String.toList_injective (List.append_cancel_right fronts))]
      | entry table' offset' =>
          simp only [Kept.cacheKey, SstableFile.blkCacheKey_toList,
            SstableFile.blockCacheKey_toList] at lists
          obtain ⟨fronts, -⟩ := offset_of_digits lists
          have named := paths.named table'
          rw [← fronts] at named
          exact absurd named (not_sstExtension_blk _)
  | entry table offset =>
      cases kept' with
      | block table' offset' =>
          simp only [Kept.cacheKey, SstableFile.blkCacheKey_toList,
            SstableFile.blockCacheKey_toList] at lists
          obtain ⟨fronts, -⟩ := offset_of_digits lists
          have named := paths.named table
          rw [fronts] at named
          exact absurd named (not_sstExtension_blk _)
      | entry table' offset' =>
          simp only [Kept.cacheKey, SstableFile.blockCacheKey_toList] at lists
          obtain ⟨fronts, rfl⟩ := offset_of_digits lists
          rw [paths.apart table table' (String.toList_injective fronts)]

/-! ## Entries that were decoded -/

theorem Value.fits_of_decode {value : Value} {input rest : Bytes}
    (decoded : Value.decode input = some (value, rest)) :
    value.Fits ∧ value.isJson = false := by
  simp only [Value.decode, Option.bind_eq_bind, Option.bind_eq_some_iff,
    Prod.exists] at decoded
  obtain ⟨variant, behind, -, decoded⟩ := decoded
  split at decoded
  · case h_1 =>
      obtain ⟨⟨s, after⟩, field, same⟩ := Option.bind_eq_some_iff.mp decoded
      cases same
      exact ⟨(decodeStr_eq_some_iff.mp field).1, rfl⟩
  · case h_2 =>
      obtain ⟨_, -, same⟩ := Option.bind_eq_some_iff.mp decoded
      cases same
      exact ⟨trivial, rfl⟩
  · case h_3 =>
      obtain ⟨_, -, same⟩ := Option.bind_eq_some_iff.mp decoded
      cases same
      exact ⟨trivial, rfl⟩
  · case h_4 =>
      obtain ⟨_, -, same⟩ := Option.bind_eq_some_iff.mp decoded
      cases same
      exact ⟨trivial, rfl⟩
  · case h_5 =>
      obtain ⟨_, -, same⟩ := Option.bind_eq_some_iff.mp decoded
      cases same
      exact ⟨trivial, rfl⟩
  · case h_6 =>
      obtain ⟨⟨bytes, after⟩, field, same⟩ :=
        Option.bind_eq_some_iff.mp decoded
      cases same
      obtain ⟨⟨count, body⟩, counted, taken⟩ :=
        Option.bind_eq_some_iff.mp field
      obtain ⟨-, sized⟩ := takeBytes_eq_some taken
      obtain ⟨-, fits⟩ := natLe_eq_some counted
      rw [pow_256_eight, ← sized] at fits
      exact ⟨fits, rfl⟩
  · case h_7 =>
      obtain ⟨_, field, -⟩ := Option.bind_eq_some_iff.mp decoded
      cases field
  · case h_8 =>
      cases decoded
      exact ⟨trivial, rfl⟩
  · cases decoded

theorem SSTableEntry.deserialize_again {entry : SSTableEntry}
    {buffer : Bytes}
    (decoded : deserialize SSTableEntry.decode buffer = some entry) :
    deserialize SSTableEntry.decode entry.encode = some entry := by
  obtain ⟨⟨_, rest⟩, fields, rfl⟩ := Option.map_eq_some_iff.mp decoded
  simp only [SSTableEntry.decode, Option.bind_eq_bind, Option.pure_def,
    Option.bind_eq_some_iff, Option.some.injEq, Prod.mk.injEq,
    Prod.exists] at fields
  obtain ⟨key, _, keyed, value, _, valued, timestamp, _, stamped, deleted, _,
    -, rfl, -⟩ := fields
  obtain ⟨valueFits, notJson⟩ := Value.fits_of_decode valued
  obtain ⟨-, small⟩ := natLe_eq_some stamped
  rw [pow_256_eight] at small
  have fits : SSTableEntry.Fits ⟨key, value, timestamp, deleted⟩ :=
    ⟨(decodeStr_eq_some_iff.mp keyed).1, valueFits, small⟩
  rw [SSTableEntry.deserialize_encode fits, notJson, if_neg Bool.false_ne_true]

namespace SstableFile

theorem tryReadFramedEntry_decoded {table : SstableFile} {offset : UInt64}
    {entry : SSTableEntry} (read : table.tryReadFramedEntry offset = .ok entry) :
    ∃ buffer, deserialize SSTableEntry.decode buffer = some entry := by
  rw [tryReadFramedEntry] at read
  cases ready : table.isReady with
  | false =>
      rw [ready] at read
      cases read
  | true =>
      rw [ready, Bool.not_true, if_neg Bool.false_ne_true] at read
      cases marked : table.markedForDeletion with
      | true =>
          rw [marked] at read
          cases read
      | false =>
          rw [marked, if_neg Bool.false_ne_true] at read
          obtain ⟨_, -, read⟩ := Fallible.bind_eq_ok_iff.mp read
          dsimp only at read
          split at read
          · cases read
          · split at read
            · cases read
            · split at read
              · cases read
              · split at read
                · cases read
                · obtain ⟨size, -, read⟩ := Fallible.bind_eq_ok_iff.mp read
                  split at read
                  · cases read
                  · split at read
                    · cases read
                    · split at read
                      · cases read
                      · obtain ⟨buffer, -, read⟩ :=
                          Fallible.bind_eq_ok_iff.mp read
                        obtain ⟨_, -, read⟩ := Fallible.bind_eq_ok_iff.mp read
                        split at read
                        · cases read
                        · split at read
                          · case h_1 decoded =>
                              cases read
                              exact ⟨buffer, decoded⟩
                          · cases read

end SstableFile

/-! ## What a memory holds -/

theorem BlockCache.get_dataAt (cache : BlockCache) (key other : String) :
    (cache.get key).1.dataAt other = cache.dataAt other :=
  cache.get_found key other

theorem BlockCache.put_dataAt {cache : BlockCache} {key other : String}
    {data found : Bytes} (held : (cache.put key data).dataAt other = some found) :
    (key = other ∧ found = data) ∨ cache.dataAt other = some found := by
  rw [dataAt, put_found] at held
  split at held
  · case isTrue same =>
      cases held
      exact Or.inl ⟨same, rfl⟩
  · split at held
    · cases held
    · exact Or.inr held

section

variable {ι : Type} (decompressVec : Bytes → Except String Bytes)
  (tables : ι → SstableFile)

/-- The cache holds nothing but what the files give. -/
def CacheHolds (cache : BlockCache) : Prop :=
  ∀ key data, cache.dataAt key = some data →
    ∃ kept : Kept ι, kept.cacheKey tables = key ∧
      kept.source tables decompressVec = .ok data

/-- The last block of a table is the one that its file gives. -/
def BlockHolds (table : ι) (memory : ReadMemory) : Prop :=
  Memo.Recalls (fun offset => Kept.source tables decompressVec
    (.block table offset)) memory.lastBlock

/-- The memory of a lookup in one of the tables holds what the files give. -/
structure Remembers (table : ι) (memory : ReadMemory) : Prop where
  block : BlockHolds decompressVec tables table memory
  cache : ∀ cache, memory.blockCache = some cache →
    CacheHolds decompressVec tables cache

end

section

variable {ι : Type} {decompressVec : Bytes → Except String Bytes}
  {tables : ι → SstableFile} {table : ι} {memory : ReadMemory}
  {offset : UInt64} {data : Bytes}

theorem CacheHolds.new (maxSize : Nat) :
    CacheHolds decompressVec tables (.new maxSize) := by
  intro key data found
  rw [BlockCache.dataAt, BlockCache.new, Std.TreeMap.getElem?_emptyc] at found
  cases found

theorem CacheHolds.get {cache : BlockCache}
    (holds : CacheHolds decompressVec tables cache) (key : String) :
    CacheHolds decompressVec tables (cache.get key).1 := by
  intro other data found
  rw [BlockCache.get_dataAt] at found
  exact holds other data found

theorem CacheHolds.put {cache : BlockCache}
    (holds : CacheHolds decompressVec tables cache) {kept : Kept ι}
    (gives : kept.source tables decompressVec = .ok data) :
    CacheHolds decompressVec tables
      (cache.put (kept.cacheKey tables) data) := by
  intro other found held
  rcases BlockCache.put_dataAt held with new | old
  · exact ⟨kept, new.1, new.2 ▸ gives⟩
  · exact holds other found old

/-- What is found under a key is what its file gives. -/
theorem CacheHolds.recalls (paths : TablePaths tables) {cache : BlockCache}
    (holds : CacheHolds decompressVec tables cache) :
    Memo.Recalls (Kept.source tables decompressVec)
      fun kept => cache.dataAt (kept.cacheKey tables) := by
  intro kept data found
  obtain ⟨kept', same, gives⟩ := holds _ data found
  rw [← paths.cacheKey_inj same]
  exact gives

namespace Remembers

theorem getCached (remembers : Remembers decompressVec tables table memory)
    (key : String) :
    Remembers decompressVec tables table (memory.getCached key).2 := by
  obtain ⟨block, cache⟩ := remembers
  rw [ReadMemory.getCached]
  cases held : memory.blockCache with
  | none => exact ⟨block, fun other none => by
      rw [held] at none
      cases none⟩
  | some old =>
      refine ⟨block, fun other same => ?_⟩
      cases same
      exact (cache old held).get key

theorem of_getCached (paths : TablePaths tables)
    (remembers : Remembers decompressVec tables table memory) {kept : Kept ι}
    (found : (memory.getCached (kept.cacheKey tables)).1 = some data) :
    kept.source tables decompressVec = .ok data := by
  rw [ReadMemory.getCached] at found
  cases held : memory.blockCache with
  | none =>
      rw [held] at found
      cases found
  | some cache =>
      rw [held] at found
      dsimp only at found
      rw [BlockCache.get_data] at found
      exact (remembers.cache cache held).recalls paths kept data found

theorem putCached
    (remembers : Remembers decompressVec tables table memory) {kept : Kept ι}
    (gives : kept.source tables decompressVec = .ok data) :
    Remembers decompressVec tables table
      (memory.putCached (kept.cacheKey tables) data) := by
  refine ⟨remembers.block, fun cache held => ?_⟩
  obtain ⟨old, before, rfl⟩ := Option.map_eq_some_iff.mp held
  exact (remembers.cache old before).put gives

theorem holdBlock (remembers : Remembers decompressVec tables table memory)
    (gives : Kept.source tables decompressVec (.block table offset) =
      .ok data) :
    Remembers decompressVec tables table (memory.holdBlock offset data) := by
  refine ⟨Memo.Recalls.learn remembers.block gives fun other found held => ?_,
    remembers.cache⟩
  rw [ReadMemory.holdBlock, ReadMemory.lastBlock] at held
  dsimp only at held
  split at held
  · case isTrue same =>
      cases held
      exact Or.inl ⟨same.symm, rfl⟩
  · cases held

end Remembers

/-! ## Lookups that go through the memories -/

namespace SstableFile

/-- A read gives the plain result and leaves a memory that holds what the
files give. -/
def ReadsPlainly (decompressVec : Bytes → Except String Bytes)
    (tables : ι → SstableFile) (table : ι) {α : Type}
    (read : Except LsmError α × ReadMemory) (plain : Except LsmError α) :
    Prop :=
  read.1 = plain ∧ Remembers decompressVec tables table read.2

theorem ReadsPlainly.bind {α β : Type} {read : Except LsmError α × ReadMemory}
    {plain : Except LsmError α}
    (reads : ReadsPlainly decompressVec tables table read plain)
    (next : α → Except LsmError β) :
    ReadsPlainly decompressVec tables table (read.1 >>= next, read.2)
      (plain >>= next) :=
  ⟨congrArg (· >>= next) reads.1, reads.2⟩

/-- A check that ends the lookup leaves the memory as it is. -/
theorem ReadsPlainly.ite {α : Type} {read : Except LsmError α × ReadMemory}
    {plain : Except LsmError α} {check : Prop} [Decidable check]
    (reads : ReadsPlainly decompressVec tables table read plain)
    (remembers : Remembers decompressVec tables table memory)
    (done : Except LsmError α) :
    ReadsPlainly decompressVec tables table
      (if check then (done, memory) else read)
      (if check then done else plain) := by
  split
  · exact ⟨rfl, remembers⟩
  · exact reads

/-- Behind the checks a lookup asks the index where the entry is. -/
theorem ReadsPlainly.indexed
    (remembers : Remembers decompressVec tables table memory)
    (index : Except LsmError FlatIndex) (key : String)
    {found : UInt64 → UInt32 → Except LsmError SstableLookupResult × ReadMemory}
    {plain : UInt64 → UInt32 → Except LsmError SstableLookupResult}
    (reads : ∀ offset size, ReadsPlainly decompressVec tables table
      (found offset size) (plain offset size)) :
    ReadsPlainly decompressVec tables table
      (match index with
        | .error failure => (.error failure, memory)
        | .ok index =>
            match index.get key with
            | none => (.ok .missing, memory)
            | some (offset, size) => found offset size)
      (index >>= fun index =>
        match index.get key with
        | none => .ok .missing
        | some (offset, size) => plain offset size) := by
  cases index with
  | error failure => exact ⟨rfl, remembers⟩
  | ok index =>
      rw [ok_bind]
      dsimp only
      cases index.get key with
      | none => exact ⟨rfl, remembers⟩
      | some location => exact reads location.1 location.2

variable (paths : TablePaths tables)
  (remembers : Remembers decompressVec tables table memory)

include paths remembers

theorem readSnappyBlockCaching_plain (offset : UInt64) :
    ReadsPlainly decompressVec tables table
      ((tables table).readSnappyBlockCaching decompressVec offset memory)
      ((tables table).forgotten.readSnappyBlockSync decompressVec offset
        none) := by
  rw [readSnappyBlockCaching]
  cases last : memory.lastBlock offset with
  | some data => exact ⟨(remembers.block offset data last).symm, remembers⟩
  | none =>
      have after := remembers.getCached
        (Kept.cacheKey tables (.block table offset))
      dsimp only
      cases found : (memory.getCached
          ((tables table).blkCacheKey offset)).1 with
      | some data =>
          have gives : Kept.source tables decompressVec
              (.block table offset) = .ok data :=
            remembers.of_getCached paths found
          exact ⟨gives.symm, after.holdBlock gives⟩
      | none =>
          dsimp only
          cases gives : (tables table).forgotten.readSnappyBlockSync
              decompressVec offset none with
          | error failure => exact ⟨rfl, after⟩
          | ok raw =>
              have source : Kept.source tables decompressVec
                (.block table offset) = .ok raw := gives
              exact ⟨rfl, (after.putCached source).holdBlock source⟩

theorem readCompressedCaching_plain (offset : UInt64) (loc : UInt32) :
    ReadsPlainly decompressVec tables table
      ((tables table).readCompressedCaching decompressVec offset loc memory)
      ((tables table).forgotten.tryReadCompressedEntry decompressVec offset
        loc none) :=
  (readSnappyBlockCaching_plain paths remembers offset).bind _

theorem readEntrySyncCaching_plain (offset : UInt64) (loc : UInt32) :
    ReadsPlainly decompressVec tables table
      ((tables table).readEntrySyncCaching decompressVec offset loc memory)
      ((tables table).forgotten.tryReadEntrySync decompressVec offset loc
        none) := by
  rw [readEntrySyncCaching]
  cases opened : (tables table).ensureFileOpenSync with
  | error failure =>
      refine ⟨?_, remembers⟩
      have same : (tables table).forgotten.ensureFileOpenSync =
        .error failure := opened
      rw [tryReadEntrySync, same]
      rfl
  | ok _ =>
      dsimp only
      split
      · case isTrue compressed =>
          have read := readCompressedCaching_plain paths remembers offset loc
          have same : (tables table).forgotten.ensureFileOpenSync =
            .ok () := opened
          have compressed' :
            (tables table).forgotten.blockCompressed = true := compressed
          rw [tryReadEntrySync, same, ok_bind, if_pos compressed']
          exact read
      · exact ⟨rfl, remembers⟩

theorem readEntryCaching_plain (offset : UInt64) (loc : UInt32) :
    ReadsPlainly decompressVec tables table
      ((tables table).readEntryCaching decompressVec offset loc memory)
      ((tables table).forgotten.tryReadEntry decompressVec offset loc
        none) := by
  rw [readEntryCaching, tryReadEntry]
  split
  · case isTrue compressed =>
      have compressed' :
        (tables table).forgotten.blockCompressed = true := compressed
      rw [if_pos compressed']
      exact readCompressedCaching_plain paths remembers offset loc
  · case isFalse legacy =>
      have legacy' :
        ¬ (tables table).forgotten.blockCompressed = true := legacy
      have after := remembers.getCached
        (Kept.cacheKey tables (.entry table offset))
      have nothing : (tables table).forgotten.cachedEntry offset none =
        none := rfl
      have plain : (tables table).forgotten.tryReadFramedEntry offset =
        (tables table).tryReadFramedEntry offset := rfl
      rw [if_neg legacy', nothing]
      dsimp only
      rw [plain]
      cases hit : (memory.getCached ((tables table).blockCacheKey
          offset)).1.bind (deserialize SSTableEntry.decode) with
      | some entry =>
          obtain ⟨data, found, decoded⟩ := Option.bind_eq_some_iff.mp hit
          have gives : Kept.source tables decompressVec
              (.entry table offset) = .ok data :=
            remembers.of_getCached paths found
          rw [Kept.source] at gives
          cases read : (tables table).tryReadFramedEntry offset with
          | error failure =>
              rw [read] at gives
              cases gives
          | ok entry' =>
              rw [read] at gives
              cases gives
              obtain ⟨buffer, whole⟩ := tryReadFramedEntry_decoded read
              rw [SSTableEntry.deserialize_again whole] at decoded
              cases decoded
              exact ⟨rfl, after⟩
      | none =>
          dsimp only
          cases read : (tables table).tryReadFramedEntry offset with
          | error failure => exact ⟨rfl, after⟩
          | ok entry =>
              have gives : Kept.source tables decompressVec
                  (.entry table offset) = .ok entry.encode := by
                rw [Kept.source, read]
                rfl
              exact ⟨rfl, after.putCached gives⟩

/-- Each attempt ends like the first one. -/
theorem readRetrying_plain (offset : UInt64) (loc : UInt32) (left : Nat) :
    ReadsPlainly decompressVec tables table
      ((tables table).readRetrying decompressVec offset loc left memory)
      ((tables table).forgotten.tryReadEntry decompressVec offset loc
        none) := by
  induction left generalizing memory with
  | zero => exact readEntryCaching_plain paths remembers offset loc
  | succ left inductionHypothesis =>
      obtain ⟨answer, after⟩ :=
        readEntryCaching_plain paths remembers offset loc
      rw [readRetrying]
      cases read : (tables table).readEntryCaching decompressVec offset loc
          memory with
      | mk result memory' =>
          rw [read] at answer after
          cases result with
          | ok entry => exact ⟨answer, after⟩
          | error failure =>
              dsimp only
              split
              · exact ⟨answer, after⟩
              · exact inductionHypothesis after

theorem lookupSyncCaching_plain (key : String) :
    ReadsPlainly decompressVec tables table
      ((tables table).lookupSyncCaching decompressVec key memory)
      ((tables table).forgotten.lookupSync decompressVec key none) := by
  rw [lookupSyncCaching, lookupSync]
  refine ReadsPlainly.ite ?_ remembers _
  refine ReadsPlainly.ite ?_ remembers _
  refine ReadsPlainly.indexed remembers _ key fun offset size => ?_
  refine ReadsPlainly.ite ?_ remembers _
  refine ReadsPlainly.ite ?_ remembers _
  refine ReadsPlainly.ite ?_ remembers _
  exact (readEntrySyncCaching_plain paths remembers offset size).bind _

theorem lookupPinnedCaching_plain (key : String) :
    ReadsPlainly decompressVec tables table
      ((tables table).lookupPinnedCaching decompressVec key memory)
      ((tables table).forgotten.lookupPinned decompressVec key none) := by
  rw [lookupPinnedCaching, lookupPinned]
  refine ReadsPlainly.ite ?_ remembers _
  refine ReadsPlainly.ite ?_ remembers _
  refine ReadsPlainly.ite ?_ remembers _
  refine ReadsPlainly.ite ?_ remembers _
  refine ReadsPlainly.indexed remembers _ key fun offset size => ?_
  refine ReadsPlainly.ite ?_ remembers _
  refine ReadsPlainly.ite ?_ remembers _
  refine ReadsPlainly.ite ?_ remembers _
  refine ReadsPlainly.ite ?_ remembers _
  refine ReadsPlainly.ite ?_ remembers _
  refine ReadsPlainly.ite ?_ remembers _
  rw [readWithRetries_eq]
  exact (readRetrying_plain paths remembers offset size _).bind _

end SstableFile

end

/-! ## Lookups in turn -/

namespace SharedMemory

variable {ι : Type} {decompressVec : Bytes → Except String Bytes}
  {tables : ι → SstableFile} {shared : SharedMemory ι}

/-- What the tables have in memory is what their files give. -/
structure Holds (decompressVec : Bytes → Except String Bytes)
    (tables : ι → SstableFile) (shared : SharedMemory ι) : Prop where
  blocks : ∀ table, BlockHolds decompressVec tables table
    ⟨shared.lastBlock table, none⟩
  cache : CacheHolds decompressVec tables shared.blockCache

theorem holds_new (maxSize : Nat) :
    Holds decompressVec tables (new maxSize) :=
  ⟨fun _ => Memo.recalls_none, CacheHolds.new maxSize⟩

theorem Holds.forLookup (holds : Holds decompressVec tables shared)
    (lookup : TableLookup ι) :
    Remembers decompressVec tables lookup.table (shared.forLookup lookup) := by
  constructor
  · cases clone : lookup.clone with
    | true =>
        intro offset data found
        rw [SharedMemory.forLookup, clone] at found
        cases found
    | false =>
        intro offset data found
        rw [SharedMemory.forLookup, clone] at found
        exact holds.blocks lookup.table offset data found
  · intro cache given
    rw [SharedMemory.forLookup] at given
    dsimp only at given
    split at given
    · cases given
      exact holds.cache
    · cases given

variable [DecidableEq ι]

theorem Holds.after (holds : Holds decompressVec tables shared)
    {lookup : TableLookup ι} {memory : ReadMemory}
    (remembers : Remembers decompressVec tables lookup.table memory) :
    Holds decompressVec tables (shared.after lookup memory) := by
  constructor
  · intro table
    rw [SharedMemory.after]
    dsimp only
    split
    · exact holds.blocks table
    · by_cases same : table = lookup.table
      · rw [same, Function.update_self]
        exact remembers.block
      · rw [Function.update_of_ne same]
        exact holds.blocks table
  · rw [SharedMemory.after]
    dsimp only
    cases held : memory.blockCache with
    | some cache => exact remembers.cache cache held
    | none => exact holds.cache

/-- One lookup answers as it would without a memory. -/
theorem Holds.lookup (paths : TablePaths tables)
    (holds : Holds decompressVec tables shared) (lookup : TableLookup ι) :
    (shared.lookup decompressVec tables lookup).1 =
        plainLookup decompressVec tables lookup ∧
      Holds decompressVec tables
        (shared.lookup decompressVec tables lookup).2 := by
  have before := holds.forLookup lookup
  rw [SharedMemory.lookup, plainLookup]
  cases lookup.pinned with
  | true =>
      obtain ⟨answer, remembers⟩ :=
        SstableFile.lookupPinnedCaching_plain paths before lookup.key
      exact ⟨answer, holds.after remembers⟩
  | false =>
      obtain ⟨answer, remembers⟩ :=
        SstableFile.lookupSyncCaching_plain paths before lookup.key
      exact ⟨answer, holds.after remembers⟩

/-- Tables over any files share a cache of any size and keep their last
blocks.  All lookups, in whatever order and by whatever reader, answer as if
nothing was ever held in memory. -/
theorem lookups_are_plain (paths : TablePaths tables) (maxSize : Nat)
    (lookups : List (TableLookup ι)) :
    Memo.answers (SharedMemory.lookup decompressVec tables) (new maxSize)
        lookups =
      lookups.map (plainLookup decompressVec tables) :=
  Memo.answers_eq_map (fun _ lookup holds => (holds.lookup paths lookup).1)
    (fun _ lookup holds => (holds.lookup paths lookup).2)
    (holds_new maxSize) lookups

/-- A block of two entries in a compressed file, or the same entries in a
legacy file. -/
def storedTwice (compressed : Bool) : SstableFile where
  path := if compressed then "data/L0.sst" else "data/L1.sst"
  config := ⟨3, true⟩
  metadata := ⟨64, "a", "b", 64⟩
  index := .ok ⟨[(strBytes "a", if compressed then 8 else 0, 39),
    (strBytes "b", if compressed then 8 else 39, 39)]⟩
  bloomFilter := none
  file :=
    if compressed then
      List.replicate 8 0 ++ (encodeU32 69 ++ (encodeU32 48 ++
        TableFile.compressedBlock))
    else TableFile.twoEntries.flatMap framedEntry
  fileOpen := false
  markedForDeletion := false
  isReady := true
  blockCompressed := compressed
  decompressedBlock := none
  short := by cases compressed <;> decide

theorem storedTwice_paths : TablePaths storedTwice where
  apart := by decide
  named := by decide

/-- Two lookups in each of the tables read the block and the entry once. -/
def repeatedLookups : List (TableLookup Bool) :=
  [⟨true, "b", false, false, true⟩, ⟨true, "b", true, true, true⟩,
    ⟨false, "b", true, true, true⟩, ⟨false, "b", true, true, true⟩]

/-- Each of them finds the tombstone of the key. -/
theorem repeated_lookups_are_plain :
    (Memo.answers (SharedMemory.lookup TableFile.decompressTwo storedTwice)
      (new 4096) repeatedLookups).map (fun answer =>
        answer.toOption.map SstableLookupResult.timestamp) =
      List.replicate 4 (some 2) := by
  rw [lookups_are_plain storedTwice_paths 4096 repeatedLookups]
  decide +kernel

end SharedMemory

end F4kvsLsm
