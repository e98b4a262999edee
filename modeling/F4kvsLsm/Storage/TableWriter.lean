import F4kvsLsm.Lib.Fallible
import F4kvsLsm.Storage.BloomFilter
import F4kvsLsm.Storage.TableMetadata

/-!
# Writing a table file

`write_entries` at the level of bytes: entries are framed and gathered into
blocks, each block is compressed and written behind its two lengths, and the
index, the filter and the metadata follow, each with a checksum.  Errors of
the file itself are left out.
-/

namespace F4kvsLsm

open ByteCodec

namespace TableFile

/-- `F4SC` -/
def compressedMagic : Bytes := [0x46, 0x34, 0x53, 0x43]

/-- A block of this many bytes is closed before the next entry, 32 KiB. -/
def blockTarget : Nat := 32 * 1024

/-- What has been written, with the hasher's input the same bytes, and the
block that is being filled. -/
structure BlockWriter where
  out : Bytes
  offset : UInt64
  indexPairs : List IndexPair
  block : Bytes
  pending : List (String × UInt32)

/-- What `write_entries` leaves on disk and in memory. -/
structure WrittenTable where
  file : Bytes
  metadata : SSTableMetadata
  index : PackedIndex
  bloomFilter : BloomFilter

section

variable (compressVec : Bytes → Except String Bytes)

def snapCompress (raw : Bytes) : Except LsmError Bytes :=
  match compressVec raw with
  | .ok comp => .ok comp
  | .error text => .error (.internal ("snappy compress: " ++ text))

namespace BlockWriter

/-- The header: the magic and a version. -/
def start : BlockWriter where
  out := compressedMagic ++ [1, 0, 0, 0]
  offset := 8
  indexPairs := []
  block := []
  pending := []

def writeSnappyBlock (writer : BlockWriter) : Except LsmError BlockWriter :=
  if writer.block.isEmpty then .ok writer
  else do
    let compressed ← snapCompress compressVec writer.block
    .ok {
      out := writer.out ++ (encodeU32 writer.block.length ++
        (encodeU32 compressed.length ++ compressed))
      offset := writer.offset + (8 + UInt64.ofNat compressed.length)
      indexPairs := writer.indexPairs ++
        writer.pending.map fun held => (held.1, writer.offset, held.2)
      block := []
      pending := [] }

/-- Write the open block when it has reached the target. -/
def closeFull (writer : BlockWriter) : Except LsmError BlockWriter :=
  if ¬ writer.block.isEmpty ∧ writer.block.length ≥ blockTarget then
    writer.writeSnappyBlock compressVec
  else .ok writer

/-- The loop body of `write_entries`. -/
def appendEntry (writer : BlockWriter) (entry : SSTableEntry) :
    Except LsmError BlockWriter := do
  let writer ← writer.closeFull compressVec
  .ok { writer with
    block := writer.block ++ framedEntry entry
    pending := writer.pending ++
      [(entry.key, UInt32.ofNat writer.block.length)] }

/-- The whole data section. -/
def writeBlocks (entries : List SSTableEntry) :
    Except LsmError BlockWriter := do
  let writer ← entries.foldlM (appendEntry compressVec) start
  writer.writeSnappyBlock compressVec

end BlockWriter

/-- A section behind which its checksum is written. -/
def checksummed (raw : Bytes) : Bytes :=
  raw ++ encodeU32 (crc32 raw).toNat

/-- Ten bits for an item, and seven hash functions. -/
def withOptimalParams (itemCount : Nat) : BloomFilter :=
  BloomFilter.new (itemCount * 10) 7

/-- The filter is made for the number of entries, and every key is added,
those of tombstones too. -/
def filterOf (hash : String → Nat → Nat) (entries : List SSTableEntry) :
    BloomFilter :=
  (entries.map (·.key)).foldl (·.add hash ·) (withOptimalParams entries.length)

/-- `write_entries` on a new table of a level. -/
def writeEntries (hash : String → Nat → Nat) (level createdAt : UInt64)
    (entries : List SSTableEntry) : Except LsmError (Option WrittenTable) :=
  match entries.head?, entries.getLast? with
  | some first, some last => do
      let writer ← BlockWriter.writeBlocks compressVec entries
      let index := PackedIndex.fromSorted writer.indexPairs
      let indexData ← snapCompress compressVec index.encode
      let bloomFilter := filterOf hash entries
      let bloomFilterData := bloomFilter.toBytes
      let body :=
        writer.out ++ checksummed indexData ++ checksummed bloomFilterData
      let metadata : SSTableMetadata :=
        { entryCount := UInt64.ofNat entries.length
          fileSize := writer.offset
          smallestKey := first.key
          largestKey := last.key
          level
          checksum := crc32 body
          createdAt
          indexOffset := writer.offset
          indexSize := UInt64.ofNat indexData.length
          bloomFilterOffset :=
            writer.offset + (UInt64.ofNat indexData.length + 4)
          bloomFilterSize := UInt64.ofNat bloomFilterData.length
          bloomFilterHashCount := UInt64.ofNat bloomFilter.hashCount }
      .ok (some ⟨body ++ checksummed metadata.encode, metadata, index,
        bloomFilter⟩)
  | _, _ => .ok none

end

/-! ## Where the entries lie -/

/-- A block with its lengths lies at an offset of the file. -/
def BlockAt (compressVec : Bytes → Except String Bytes) (file : Bytes)
    (offset : Nat) (raw : Bytes) : Prop :=
  ∃ comp front behind, compressVec raw = .ok comp ∧
    file = front ++ (encodeU32 raw.length ++
      (encodeU32 comp.length ++ comp)) ++ behind ∧
    front.length = offset

/-- An entry lies framed at a place of a block; no block is larger than the
target and one entry. -/
structure FramedIn (block : Bytes) (loc : UInt32) (entry : SSTableEntry) :
    Prop where
  place : ∃ front back, block = front ++ framedEntry entry ++ back ∧
    front.length = loc.toNat
  early : loc.toNat < blockTarget

def maxWrittenBlock : Nat := blockTarget + maxFramedEntry + 8

def LeadsTo (compressVec : Bytes → Except String Bytes) (file : Bytes)
    (pair : IndexPair) (entry : SSTableEntry) : Prop :=
  pair.1 = entry.key ∧ ∃ offset block,
    pair.2.1 = UInt64.ofNat offset ∧ BlockAt compressVec file offset block ∧
    FramedIn block pair.2.2 entry ∧ block.length < maxWrittenBlock

theorem LeadsTo.append {compressVec : Bytes → Except String Bytes}
    {file : Bytes} {pair : IndexPair} {entry : SSTableEntry}
    (leads : LeadsTo compressVec file pair entry) (more : Bytes) :
    LeadsTo compressVec (file ++ more) pair entry := by
  obtain ⟨key, offset, block, place, ⟨comp, front, behind, compressed, split,
    start⟩, framed⟩ := leads
  refine ⟨key, offset, block, place,
    ⟨comp, front, behind ++ more, compressed, ?_, start⟩, framed⟩
  rw [split, List.append_assoc _ behind more]

namespace BlockWriter

section

variable {compressVec : Bytes → Except String Bytes}

/-- The pairs of the index lead to the entries that are in closed blocks, and
the others lie in the open block. -/
structure Holds (compressVec : Bytes → Except String Bytes)
    (writer : BlockWriter) (closed opened : List SSTableEntry) : Prop where
  offset : writer.offset = UInt64.ofNat writer.out.length
  index : List.Forall₂ (LeadsTo compressVec writer.out) writer.indexPairs
    closed
  pending : List.Forall₂ (fun pair entry =>
    pair.1 = entry.key ∧ FramedIn writer.block pair.2 entry) writer.pending
    opened
  room : writer.block.length < maxWrittenBlock

theorem start_holds : start.Holds compressVec [] [] where
  offset := rfl
  index := .nil
  pending := .nil
  room := by decide

/-- A block without bytes has no entries. -/
theorem Holds.opened_eq_nil {writer : BlockWriter}
    {closed opened : List SSTableEntry}
    (holds : writer.Holds compressVec closed opened)
    (empty : writer.block = []) : opened = [] := by
  cases opened with
  | nil => rfl
  | cons entry rest =>
      obtain ⟨held, _, here, -, -⟩ :=
        List.forall₂_cons_right_iff.mp holds.pending
      obtain ⟨front, back, split, -⟩ := here.2.place
      have lengths := congrArg List.length split
      rw [empty, List.length_append, List.length_append, framedEntry_length,
        List.length_nil] at lengths
      omega

theorem snapCompress_eq_ok_iff {raw comp : Bytes} :
    snapCompress compressVec raw = .ok comp ↔
      compressVec raw = .ok comp := by
  rw [snapCompress]
  cases compressVec raw with
  | ok other => simp
  | error text => simp

theorem writeSnappyBlock_out {writer next : BlockWriter}
    (wrote : writer.writeSnappyBlock compressVec = .ok next) :
    writer.out <+: next.out := by
  rw [BlockWriter.writeSnappyBlock] at wrote
  split at wrote
  · cases wrote
    exact List.prefix_refl _
  · obtain ⟨compressed, -, same⟩ := Fallible.bind_eq_ok_iff.mp wrote
    cases same
    exact List.prefix_append _ _

theorem appendEntry_out {writer next : BlockWriter} {entry : SSTableEntry}
    (appended : writer.appendEntry compressVec entry = .ok next) :
    writer.out <+: next.out := by
  obtain ⟨middle, ready, same⟩ := Fallible.bind_eq_ok_iff.mp appended
  cases same
  change writer.out <+: middle.out
  rw [closeFull] at ready
  split at ready
  · exact writeSnappyBlock_out ready
  · cases ready
    exact List.prefix_refl _

/-- A file begins with its header. -/
theorem writeBlocks_out {entries : List SSTableEntry} {writer : BlockWriter}
    (wrote : writeBlocks compressVec entries = .ok writer) :
    start.out <+: writer.out := by
  obtain ⟨filled, ran, closing⟩ := Fallible.bind_eq_ok_iff.mp wrote
  have kept := Fallible.foldlM_keeps
    (fun writer _ => start.out <+: BlockWriter.out writer) []
    (fun writer done entry next _ keeps appended =>
      keeps.trans (appendEntry_out appended)) (List.prefix_refl _) ran
  exact kept.trans (writeSnappyBlock_out closing)

theorem Holds.writeSnappyBlock {writer next : BlockWriter}
    {closed opened : List SSTableEntry}
    (holds : writer.Holds compressVec closed opened)
    (wrote : writer.writeSnappyBlock compressVec = .ok next) :
    next.Holds compressVec (closed ++ opened) [] ∧ next.block = [] := by
  rw [BlockWriter.writeSnappyBlock] at wrote
  split at wrote
  · case isTrue empty =>
      rw [List.isEmpty_iff] at empty
      cases wrote
      have none := holds.opened_eq_nil empty
      rw [none] at holds ⊢
      rw [List.append_nil]
      exact ⟨holds, empty⟩
  · obtain ⟨compressed, snappy, same⟩ := Fallible.bind_eq_ok_iff.mp wrote
    rw [snapCompress_eq_ok_iff] at snappy
    cases same
    have positive : 0 < maxWrittenBlock := by decide
    refine ⟨⟨?_, ?_, .nil, positive⟩, rfl⟩
    · have length : (writer.out ++ (encodeU32 writer.block.length ++
          (encodeU32 compressed.length ++ compressed))).length =
          writer.out.length + (8 + compressed.length) := by
        simp only [List.length_append, encodeU32, toLeBytes_length]
        omega
      rw [holds.offset, length, UInt64.ofNat_add, UInt64.ofNat_add]
      rfl
    · refine List.rel_append ?_ ?_
      · exact holds.index.imp fun pair entry leads => leads.append _
      · rw [List.forall₂_map_left_iff]
        refine holds.pending.imp fun held entry here => ?_
        refine ⟨here.1, writer.out.length, writer.block, holds.offset, ?_,
          here.2, holds.room⟩
        exact ⟨compressed, writer.out, [], snappy,
          (List.append_nil _).symm, rfl⟩

/-- An entry joins the open block, or a new one when the target is
reached. -/
theorem Holds.appendEntry {writer next : BlockWriter}
    {closed opened : List SSTableEntry} {entry : SSTableEntry}
    (small : entry.encode.length ≤ maxFramedEntry)
    (holds : writer.Holds compressVec closed opened)
    (appended : writer.appendEntry compressVec entry = .ok next) :
    ∃ closed' opened', closed' ++ opened' = closed ++ opened ++ [entry] ∧
      next.Holds compressVec closed' opened' := by
  obtain ⟨middle, ready, same⟩ := Fallible.bind_eq_ok_iff.mp appended
  have begun : ∃ closed' opened', closed' ++ opened' = closed ++ opened ∧
      middle.Holds compressVec closed' opened' ∧
        middle.block.length < blockTarget := by
    rw [closeFull] at ready
    split at ready
    · obtain ⟨moved, empty⟩ := holds.writeSnappyBlock ready
      exact ⟨_, [], List.append_nil _, moved, by rw [empty]; decide⟩
    · case isFalse within =>
        cases ready
        refine ⟨closed, opened, rfl, holds, ?_⟩
        cases block : writer.block with
        | nil => decide
        | cons byte rest =>
            rw [block] at within
            simpa using within
  obtain ⟨closed', opened', joined, kept, below⟩ := begun
  cases same
  have place : (UInt32.ofNat middle.block.length).toNat =
      middle.block.length := by
    rw [blockTarget] at below
    rw [UInt32.toNat_ofNat']
    exact Nat.mod_eq_of_lt (by omega)
  refine ⟨closed', opened' ++ [entry], by rw [← joined, List.append_assoc],
    kept.offset, kept.index, ?_, ?_⟩
  · refine List.rel_append ?_ (.cons ⟨rfl, ?_⟩ .nil)
    · refine kept.pending.imp fun held other here => ?_
      obtain ⟨front, back, split, start⟩ := here.2.place
      refine ⟨here.1, ⟨front, back ++ framedEntry entry, ?_, start⟩,
        here.2.early⟩
      dsimp only
      rw [split, List.append_assoc _ back]
    · refine ⟨⟨middle.block, [], (List.append_nil _).symm, place.symm⟩, ?_⟩
      rw [place]
      exact below
  · dsimp only
    rw [List.length_append, framedEntry_length, maxWrittenBlock]
    omega

/-- The finished data section: every pair of the index leads to its entry. -/
theorem writeBlocks_holds {entries : List SSTableEntry} {writer : BlockWriter}
    (small : ∀ entry ∈ entries, entry.encode.length ≤ maxFramedEntry)
    (wrote : writeBlocks compressVec entries = .ok writer) :
    writer.Holds compressVec entries [] := by
  obtain ⟨filled, ran, closing⟩ := Fallible.bind_eq_ok_iff.mp wrote
  have kept := Fallible.foldlM_keeps
    (fun writer done => ∃ closed opened, closed ++ opened = done ∧
      BlockWriter.Holds compressVec writer closed opened) []
    (fun writer done entry next member keeps appended => by
      obtain ⟨closed, opened, rfl, holds⟩ := keeps
      exact holds.appendEntry (small entry member) appended)
    ⟨[], [], rfl, start_holds⟩ ran
  obtain ⟨closed, opened, joined, holds⟩ := kept
  obtain ⟨finished, -⟩ := holds.writeSnappyBlock closing
  rwa [joined, List.nil_append] at finished

end

end BlockWriter

/-- The parts of a written table. -/
structure Consists (compressVec : Bytes → Except String Bytes)
    (hash : String → Nat → Nat) (entries : List SSTableEntry)
    (written : WrittenTable)
    (writer : BlockWriter) (indexData : Bytes) : Prop where
  blocks : BlockWriter.writeBlocks compressVec entries = .ok writer
  index : written.index = PackedIndex.fromSorted writer.indexPairs
  snappy : compressVec written.index.encode = .ok indexData
  filter : written.bloomFilter = filterOf hash entries
  file : written.file =
    writer.out ++ checksummed indexData ++
      checksummed written.bloomFilter.toBytes ++
        checksummed written.metadata.encode
  smallest : ∃ first, entries.head? = some first ∧
    written.metadata.smallestKey = first.key
  largest : ∃ last, entries.getLast? = some last ∧
    written.metadata.largestKey = last.key
  entryCount : written.metadata.entryCount = UInt64.ofNat entries.length
  fileSize : written.metadata.fileSize = writer.offset
  indexOffset : written.metadata.indexOffset = writer.offset
  indexSize : written.metadata.indexSize = UInt64.ofNat indexData.length

theorem writeEntries_consists {compressVec : Bytes → Except String Bytes}
    {hash : String → Nat → Nat} {level createdAt : UInt64}
    {entries : List SSTableEntry} {written : WrittenTable}
    (wrote : writeEntries compressVec hash level createdAt
      entries = .ok (some written)) :
    ∃ writer indexData,
      Consists compressVec hash entries written writer indexData := by
  rw [writeEntries] at wrote
  split at wrote
  · case h_1 first last head tail =>
      obtain ⟨writer, blocks, wrote⟩ := Fallible.bind_eq_ok_iff.mp wrote
      obtain ⟨indexData, snappy, wrote⟩ := Fallible.bind_eq_ok_iff.mp wrote
      rw [BlockWriter.snapCompress_eq_ok_iff] at snappy
      cases wrote
      exact ⟨writer, indexData, blocks, rfl, snappy, rfl, rfl,
        ⟨first, head, rfl⟩, ⟨last, tail, rfl⟩, rfl, rfl, rfl, rfl⟩
  · cases wrote

end TableFile

end F4kvsLsm
