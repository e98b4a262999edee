import Mathlib.Data.List.Sort
import F4kvsLsm.Config
import F4kvsLsm.Error
import F4kvsLsm.Lib.Framing
import F4kvsLsm.Storage.Entry

/-!
# Log managers that keep one file a segment

The segment backend and the frame backend write the same records into files
that differ in their header.  They differ in three more places, which are kept
apart below: how a file is read, whether an empty last file is reused when the
log is opened, and what a forced cleanup removes.

A log directory is the list of its files in the order in which the directory
is listed.  File names carry the segment number, so a file is known by it.
Group commit is off and no operation fails in the file system.
-/

namespace F4kvsLsm

open ByteCodec

/-- The two backends with one file a segment. -/
inductive FileEngine where
  | segment
  | frame
  deriving DecidableEq, Repr

/-- A log file on disk; `created` is its birth time in seconds. -/
structure WalFile where
  id : Nat
  created : UInt64
  content : Bytes

/-- `WALSegmentHeader` and `FrameWalHeader`; only the latter is written with
its page size. -/
structure WALSegmentHeader where
  createdAt : UInt64
  entryCount : Nat
  pageSize : Nat

namespace FileEngine

def magic : FileEngine → Bytes
  | .segment => [87, 65, 76, 49]
  | .frame => [87, 65, 76, 70]

def headerSize : FileEngine → Nat
  | .segment => 17
  | .frame => 21

def encodeHeader (engine : FileEngine) (header : WALSegmentHeader) : Bytes :=
  engine.magic ++ [1] ++ encodeU64 header.createdAt.toNat ++
    encodeU32 header.entryCount ++
    match engine with
    | .segment => []
    | .frame => encodeU32 header.pageSize

@[simp]
theorem encodeHeader_length
    (engine : FileEngine) (header : WALSegmentHeader) :
    (engine.encodeHeader header).length = engine.headerSize := by
  cases engine <;>
    simp [encodeHeader, magic, headerSize, encodeU64, encodeU32]

theorem encodeHeader_take
    (engine : FileEngine) (header : WALSegmentHeader) :
    (engine.encodeHeader header).take 4 = engine.magic := by
  cases engine <;> rfl

theorem four_le_headerSize (engine : FileEngine) :
    4 ≤ engine.headerSize := by
  cases engine <;> decide

end FileEngine

/-! ## Reading -/

/-- `WALSegment::open_for_reading` and `read_entries`.  A file without a whole
header counts as empty, a torn record ends the scan, and a record that cannot
be decoded is skipped. -/
def WALSegment.readEntries (maxSize : Nat) (content : Bytes) :
    Except LsmError (List WALEntry) :=
  if content.length < 17 then .ok []
  else if content.take 4 ≠ FileEngine.segment.magic then
    .error (.corruption "Invalid WAL magic number")
  else
    .ok ((scanFrames (fun size => size ≤ maxSize) (content.drop 17)).1.filterMap
      (deserialize WALEntry.decode))

/-- `FrameWalSegment::open_for_reading` and `read_entries`.  A missing length
field ends the scan, a torn body is an error. -/
def FrameWalSegment.readEntries (content : Bytes) :
    Except LsmError (List WALEntry) :=
  if content.length < 21 then .error (.io "early eof")
  else if content.take 4 ≠ FileEngine.frame.magic then
    .error (.corruption "Invalid frame WAL magic")
  else
    match scanFrames (fun _ => true) (content.drop 21) with
    | (_, .shortBody) => .error (.io "early eof")
    | (bodies, _) =>
        .ok (bodies.filterMap (deserialize WALEntry.decode))

def FileEngine.readEntries
    (engine : FileEngine) (maxSize : Nat) (content : Bytes) :
    Except LsmError (List WALEntry) :=
  match engine with
  | .segment => WALSegment.readEntries maxSize content
  | .frame => FrameWalSegment.readEntries content

/-- What a file adds to a recovery: nothing when it cannot be read. -/
def FileEngine.entriesOf
    (engine : FileEngine) (maxSize : Nat) (file : WalFile) : List WALEntry :=
  match engine.readEntries maxSize file.content with
  | .ok entries => entries
  | .error _ => []

def sortById (files : List WalFile) : List WalFile :=
  files.insertionSort (fun a b => a.id ≤ b.id)

/-- Stable: entries with equal timestamps keep their order. -/
def sortByTimestamp (entries : List WALEntry) : List WALEntry :=
  entries.insertionSort (fun a b => a.timestamp.toNat ≤ b.timestamp.toNat)

/-- Sixteen hexadecimal digits. -/
def hex16 (n : Nat) : String :=
  String.ofList (List.leftpad 16 '0' (Nat.toDigits 16 n))

def segmentFileName (id : Nat) : String :=
  "segment_" ++ hex16 id ++ ".wal"

/-- One line of the recovery report for a file that cannot be read. -/
def readErrorOf (maxSize : Nat) (file : WalFile) : Option String :=
  match WALSegment.readEntries maxSize file.content with
  | .ok _ => none
  | .error error => some (segmentFileName file.id ++ ": " ++ error.display)

def WALManager.readEntriesFromDisk (maxSize : Nat) (dir : List WalFile) :
    Except LsmError (List WALEntry) :=
  let files := sortById dir
  let readErrors := files.filterMap (readErrorOf maxSize)
  if files.length > 0 ∧ readErrors.length = files.length then
    .error (.wal ("Failed to recover from " ++ toString files.length ++
      " WAL segment(s): " ++ String.intercalate "; " readErrors))
  else
    .ok (sortByTimestamp (files.flatMap (FileEngine.segment.entriesOf maxSize)))

/-- `FrameWalManager::read_entries_from_disk`; unreadable files are left
out without a word. -/
def FrameWalManager.readEntriesFromDisk (maxSize : Nat) (dir : List WalFile) :
    Except LsmError (List WALEntry) :=
  .ok (sortByTimestamp
    ((sortById dir).flatMap (FileEngine.frame.entriesOf maxSize)))

namespace FileWal

def readEntriesFromDisk
    (engine : FileEngine) (config : WalConfig) (dir : List WalFile) :
    Except LsmError (List WALEntry) :=
  match engine with
  | .segment => WALManager.readEntriesFromDisk config.segmentSize dir
  | .frame => FrameWalManager.readEntriesFromDisk config.segmentSize dir

end FileWal

/-! ## The manager -/

/-- The open segment: its number and its header, whose count is kept in
memory and written when the file is synced or closed. -/
structure OpenSegment where
  id : Nat
  header : WALSegmentHeader

/-- `WALManager` and `FrameWalManager` with their directory.  `segments` maps
the counter at a rotation to the file that was closed there. -/
structure FileWal where
  dir : List WalFile
  current : Option OpenSegment
  segments : List (Nat × Nat)
  counter : Nat

namespace FileWal

variable (engine : FileEngine) (config : WalConfig)

/-- Apply `change` to the content of file `id`. -/
def updateFile (dir : List WalFile) (id : Nat) (change : Bytes → Bytes) :
    List WalFile :=
  dir.map fun file =>
    if file.id = id then { file with content := change file.content } else file

def fileLen (dir : List WalFile) (id : Nat) : Nat :=
  match dir.find? (fun file => file.id = id) with
  | some file => file.content.length
  | none => 0

/-- Write at the start of a file. -/
def overwrite (bytes content : Bytes) : Bytes :=
  bytes ++ content.drop bytes.length

def writeHeader (dir : List WalFile) (segment : OpenSegment) : List WalFile :=
  updateFile dir segment.id (overwrite (engine.encodeHeader segment.header))

/-- The page size that goes into a frame header. -/
def pageSize : Nat := max config.framePageSize 512

def newHeader (now : UInt64) : WALSegmentHeader :=
  ⟨now, 0, pageSize config⟩

/-- Create file `id` if it does not exist and write the header into it. -/
def newSegment (dir : List WalFile) (id : Nat) (now : UInt64) :
    List WalFile × OpenSegment :=
  let segment : OpenSegment := ⟨id, newHeader config now⟩
  let dir :=
    if dir.any (fun file => file.id = id) then dir else dir ++ [⟨id, now, []⟩]
  (writeHeader engine dir segment, segment)

def rotateSegment (m : FileWal) (now : UInt64) : FileWal :=
  let (dir, segments) :=
    match m.current with
    | some segment =>
        (writeHeader engine m.dir segment,
          m.segments ++ [(m.counter, segment.id)])
    | none => (m.dir, m.segments)
  let (dir, segment) := newSegment engine config dir m.counter now
  { dir := dir, current := some segment, segments := segments,
    counter := m.counter + 1 }

/-- `scan_existing_segments`: the next free segment number. -/
def scanExistingSegments (dir : List WalFile) : Nat :=
  (dir.map (·.id)).foldl max 0 + 1

/-- A manager that has not been initialized. -/
def new (dir : List WalFile) : FileWal :=
  ⟨dir, none, [], 0⟩

/-- `try_reuse_last_empty_segment`: the last file, if it is a bare header. -/
def tryReuseLastEmptySegment (m : FileWal) (now : UInt64) : Option FileWal :=
  if m.counter ≤ 1 then none
  else
    let lastId := m.counter - 1
    if m.dir.any (fun file => file.id = lastId) ∧
        fileLen m.dir lastId = engine.headerSize then
      some { m with current := some ⟨lastId, newHeader config now⟩ }
    else none

/-- Only the segment backend reuses an empty file. -/
def initializeWal (m : FileWal) (now : UInt64) : FileWal :=
  let m := { m with counter := scanExistingSegments m.dir }
  match engine with
  | .segment =>
      (tryReuseLastEmptySegment .segment config m now).getD
        (rotateSegment .segment config m now)
  | .frame => rotateSegment .frame config m now

/-! ### Writing -/

/-- The segment's `write_entry`; `false` asks for a rotation. -/
def segmentWriteEntry (dir : List WalFile) (segment : OpenSegment)
    (entry : WALEntry) : List WalFile × OpenSegment × Bool :=
  let entryData := entry.encode
  if fileLen dir segment.id + (entryData.length + 4) > config.segmentSize then
    (dir, segment, false)
  else
    (updateFile dir segment.id (· ++ frame entryData),
      { segment with
        header := { segment.header with
          entryCount := segment.header.entryCount + 1 } },
      true)

/-- The manager's `write_entry`.  The result of the second attempt is not
looked at. -/
def writeEntry (m : FileWal) (entry : WALEntry) (now : UInt64) :
    Except LsmError FileWal :=
  match m.current with
  | none => .error (.internal (match engine with
      | .segment => "No current WAL segment"
      | .frame => "No current frame WAL segment"))
  | some segment =>
      match segmentWriteEntry config m.dir segment entry with
      | (dir, segment, true) =>
          .ok { m with dir := dir, current := some segment }
      | (_, _, false) =>
          let m := rotateSegment engine config m now
          match m.current with
          | none => .error (.internal (match engine with
              | .segment => "Failed to create new WAL segment"
              | .frame => "Failed to create frame WAL segment"))
          | some segment =>
              let (dir, segment, _) :=
                segmentWriteEntry config m.dir segment entry
              .ok { m with dir := dir, current := some segment }

/-- Persist the header of the open segment. -/
def flush (m : FileWal) : FileWal :=
  match m.current with
  | some segment => { m with dir := writeHeader engine m.dir segment }
  | none => m

/-- Append the records of a batch in one write to the open segment. -/
def appendBatch (m : FileWal) (segment : OpenSegment)
    (entries : List WALEntry) : FileWal :=
  let segment : OpenSegment :=
    { segment with
      header := { segment.header with
        entryCount := segment.header.entryCount + entries.length } }
  let dir := updateFile m.dir segment.id
    (· ++ frames (entries.map WALEntry.encode))
  flush engine { m with dir := dir, current := some segment }

/-- The first step of a batch: rotate when the open segment is full. -/
def rotateIfFull (m : FileWal) (now : UInt64) : FileWal :=
  match m.current with
  | some segment =>
      if fileLen m.dir segment.id ≥ config.segmentSize then
        rotateSegment engine config m now
      else m
  | none => m

/-- `batch_write_entries`: rotate when the open segment is full, rotate again
when the batch does not fit behind it, then write whatever the size. -/
def batchWriteEntries (m : FileWal) (entries : List WALEntry) (now : UInt64) :
    Except LsmError FileWal :=
  if entries.isEmpty then .ok m
  else
    let dataLen := (frames (entries.map WALEntry.encode)).length
    let m := rotateIfFull engine config m now
    match m.current with
    | none => .error (.internal (match engine with
        | .segment => "No current WAL segment"
        | .frame => "No current frame WAL segment for batch"))
    | some segment =>
        if fileLen m.dir segment.id + dataLen > config.segmentSize then
          let m := rotateSegment engine config m now
          match m.current with
          | none => .error (.internal (match engine with
              | .segment => "No current WAL segment"
              | .frame => "Failed frame WAL segment after rotation"))
          | some segment => .ok (appendBatch engine m segment entries)
        else .ok (appendBatch engine m segment entries)

def writeOperation (m : FileWal) (key : String) (value : Value)
    (now : UInt64) : Except LsmError FileWal :=
  writeEntry engine config m (.put key value now) now

def writeDelete (m : FileWal) (key : String) (now : UInt64) :
    Except LsmError FileWal :=
  writeEntry engine config m (.delete key now) now

def batchWriteOperations (m : FileWal) (items : List (String × Value))
    (now : UInt64) : Except LsmError FileWal :=
  if items.isEmpty then .ok m
  else
    batchWriteEntries engine config m
      (items.map fun item => .put item.1 item.2 now) now

/-! ### Truncation -/

/-- Removing the files one by one in listing order; after `count` removals
the rest of the listing is still there. -/
def removeListed (dir : List WalFile) (count : Nat) : List WalFile :=
  dir.drop count

/-- The directory that the removal loop of a truncation walks over. -/
def truncationListing (m : FileWal) : List WalFile :=
  (flush engine m).dir

/-- Close the open segment, remove every segment file, start a new one. -/
def truncateAfterFlush (m : FileWal) (now : UInt64) : FileWal :=
  let listing := truncationListing engine m
  rotateSegment engine config
    { m with
      dir := removeListed listing listing.length
      current := none
      segments := [] }
    now

end FileWal

end F4kvsLsm
