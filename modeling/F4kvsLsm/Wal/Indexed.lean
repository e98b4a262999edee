import F4kvsLsm.Wal.FileWal

/-!
# The indexed log manager

Every committed frame is a file of its own in the directory of its segment,
padded with zeros to the frame size.  `wal.idx` names the active segment and
its last committed frame.  Its two slots are written in turn, and the valid
slot of the higher generation counts.
-/

namespace F4kvsLsm

open ByteCodec

/-! ## `wal.idx` -/

/-- Durable high-water mark for the indexed WAL segment. -/
structure WalIndexHeader where
  generation : Nat
  segmentId : Nat
  frameSize : Nat
  committedFrame : Nat
  committedOffset : Nat
  entryCount : Nat

def WalIndexHeader.new (segmentId frameSize : Nat) : WalIndexHeader :=
  ⟨0, segmentId, frameSize, 0, 0, 0⟩

/-- The two slots of the file; a slot that was never written is `none`. -/
structure IndexSlots where
  even : Option WalIndexHeader
  odd : Option WalIndexHeader

namespace IndexSlots

def empty : IndexSlots := ⟨none, none⟩

/-- The slot of the higher generation, the second one on a tie. -/
def readLatest (slots : IndexSlots) : Option WalIndexHeader :=
  match slots.even, slots.odd with
  | none, latest => latest
  | latest, none => latest
  | some even, some odd =>
      if even.generation ≤ odd.generation then some odd else some even

/-- `commit` and `commit_volatile`: the next generation goes to its slot. -/
def commit (slots : IndexSlots) (latest header : WalIndexHeader) :
    IndexSlots × WalIndexHeader :=
  let header := { header with generation := latest.generation + 1 }
  if header.generation % 2 = 0 then
    ({ slots with even := some header }, header)
  else ({ slots with odd := some header }, header)

end IndexSlots

/-! ## Directories and segments -/

/-- The frame files of one segment by frame number. -/
structure FramesDir where
  segmentId : Nat
  created : UInt64
  frames : List (Nat × Bytes)

/-- The log directory; `root` tells whether `frames/` exists. -/
structure IndexedDisk where
  index : Option IndexSlots
  root : Bool
  dirs : List FramesDir

/-- The open segment with its staging buffer. -/
structure IndexedWalSegment where
  segmentId : Nat
  stagingFrame : Nat
  staging : Bytes
  entriesInStaging : Nat

/-- An open segment, the index as it is kept in memory, and the disk under
both. -/
structure ActiveSegment where
  disk : IndexedDisk
  slots : IndexSlots
  latest : WalIndexHeader
  segment : IndexedWalSegment

/-- Minimum frame payload. -/
def indexedMinFrameSize : Nat := 8192

namespace IndexedWalSegment

variable (config : WalConfig)

def frameSize : Nat := max config.framePageSize indexedMinFrameSize

def dataFrameCount : Nat := max config.indexedFrameCount 64

def encodeEntry (entry : WALEntry) : Bytes :=
  frame entry.encode

/-- The frame padded with zeros to the frame size. -/
def frameFile (bytes : Bytes) : Bytes :=
  bytes ++ List.replicate (frameSize config - bytes.length) 0

/-- Replace or create one frame file. -/
def putFrame (frames : List (Nat × Bytes)) (id : Nat) (content : Bytes) :
    List (Nat × Bytes) :=
  frames.filter (fun file => file.1 ≠ id) ++ [(id, content)]

def putFrameFile (disk : IndexedDisk) (segmentId frameId : Nat)
    (content : Bytes) : IndexedDisk :=
  { disk with dirs := disk.dirs.map fun dir =>
      if dir.segmentId = segmentId then
        { dir with frames := putFrame dir.frames frameId content }
      else dir }

def writeFrameFile (disk : IndexedDisk) (segmentId frameId : Nat)
    (bytes : Bytes) : IndexedDisk :=
  putFrameFile disk segmentId frameId (frameFile config bytes)

def hasFrameCapacity (segment : IndexedWalSegment) : Bool :=
  0 < segment.stagingFrame ∧ segment.stagingFrame ≤ dataFrameCount config

/-- `commit_frame`: write the next frame and advance the index. -/
def commitFrame (active : ActiveSegment) (bytes : Bytes) (entries : Nat) :
    ActiveSegment :=
  let frameId := active.segment.stagingFrame
  let disk :=
    writeFrameFile config active.disk active.segment.segmentId frameId bytes
  let (slots, latest) := active.slots.commit active.latest
    { active.latest with
      committedFrame := frameId
      committedOffset := bytes.length % 2 ^ 32
      entryCount := active.latest.entryCount + entries }
  { disk := { disk with index := some slots }
    slots := slots
    latest := latest
    segment := { active.segment with stagingFrame := frameId + 1 } }

def clearStaging (active : ActiveSegment) : ActiveSegment :=
  { active with
    segment := { active.segment with staging := [], entriesInStaging := 0 } }

/-- `flush_staging`; `false` when no frame is left. -/
def flushStaging (active : ActiveSegment) : ActiveSegment × Bool :=
  if active.segment.staging.isEmpty then (active, true)
  else if hasFrameCapacity config active.segment then
    (clearStaging (commitFrame config active active.segment.staging
        active.segment.entriesInStaging),
      true)
  else (active, false)

/-- Put an encoded entry behind what is staged. -/
def stage (active : ActiveSegment) (encoded : Bytes) : ActiveSegment :=
  { active with
    segment := { active.segment with
      staging := active.segment.staging ++ encoded
      entriesInStaging := active.segment.entriesInStaging + 1 } }

/-- Flush what is staged if the next entry does not fit behind it. -/
def makeRoom (active : ActiveSegment) (encoded : Bytes) :
    ActiveSegment × Bool :=
  if ¬ active.segment.staging.isEmpty ∧
      active.segment.staging.length + encoded.length > frameSize config then
    flushStaging config active
  else (active, true)

/-- `append_entry`; `false` when the segment is full. -/
def appendEntry (active : ActiveSegment) (entry : WALEntry) :
    ActiveSegment × Bool :=
  let encoded := encodeEntry entry
  if encoded.length > frameSize config then
    match flushStaging config active with
    | (active, false) => (active, false)
    | (active, true) =>
        if hasFrameCapacity config active.segment then
          (commitFrame config active encoded 1, true)
        else (active, false)
  else
    match makeRoom config active encoded with
    | (active, false) => (active, false)
    | (active, true) =>
        if active.segment.staging.isEmpty ∧
            ¬ hasFrameCapacity config active.segment then (active, false)
        else if active.segment.staging.isEmpty ∧
            encoded.length = frameSize config then
          flushStaging config (stage active encoded)
        else
          let active := stage active encoded
          if config.syncMode = .fsync ∨ config.syncMode = .fsyncAsync then
            flushStaging config active
          else (active, true)

/-- The loop of `append_entries_batch`; returns how many entries were taken
and whether all of them were. -/
def appendEntriesLoop (active : ActiveSegment) :
    List WALEntry → ActiveSegment × Nat × Bool
  | [] => (active, 0, true)
  | entry :: entries =>
      let encoded := encodeEntry entry
      if encoded.length > frameSize config then
        match flushStaging config active with
        | (active, false) => (active, 0, false)
        | (active, true) =>
            if hasFrameCapacity config active.segment then
              let (active, written, all) := appendEntriesLoop
                (commitFrame config active encoded 1) entries
              (active, written + 1, all)
            else (active, 0, false)
      else
        match makeRoom config active encoded with
        | (active, false) => (active, 0, false)
        | (active, true) =>
            if active.segment.staging.isEmpty ∧
                ¬ hasFrameCapacity config active.segment then
              (active, 0, false)
            else
              let (active, written, all) :=
                appendEntriesLoop (stage active encoded) entries
              (active, written + 1, all)

/-- `append_entries_batch`: entries left in the staging buffer are flushed,
or dropped from the count when no frame is left for them. -/
def appendEntriesBatch (active : ActiveSegment) (entries : List WALEntry) :
    ActiveSegment × Nat :=
  match appendEntriesLoop config active entries with
  | (active, written, false) => (active, written)
  | (active, written, true) =>
      match flushStaging config active with
      | (active, true) => (active, written)
      | (active, false) =>
          (clearStaging active, written - active.segment.entriesInStaging)

end IndexedWalSegment

/-! ## Reading -/

namespace IndexedWalSegment

/-- `decode_frames`: a record that cannot be decoded is an error. -/
def decodeFrames (bytes : Bytes) : Except LsmError (List WALEntry) :=
  (scanFrames (fun _ => true) bytes).1.mapM fun body =>
    match deserialize WALEntry.decode body with
    | some entry => .ok entry
    | none => .error (.serialization "decode wal entry")

/-- One frame file; a file shorter than a frame cannot be read, and a limit
behind its end is out of range. -/
def readFrame (frameSize limit : Nat) (content : Bytes) :
    Except LsmError (List WALEntry) :=
  if content.length < frameSize then .error (.io "early eof")
  else if content.length < limit then
    -- the slice of the frame panics
    .error (.internal "range end index out of range for slice")
  else decodeFrames (content.take limit)

def lastScanned (dir : FramesDir) : Nat :=
  (dir.frames.map (·.1)).foldl max 0

def frameContent (dir : FramesDir) (id : Nat) : Option Bytes :=
  (dir.frames.find? (fun file => file.1 = id)).map (·.2)

/-- The bytes of a frame that count: the index limits only the frame it
points at, and only when that is the last one. -/
def frameLimit (state : WalIndexHeader) (lastFrame id : Nat)
    (content : Bytes) : Nat :=
  if id = lastFrame ∧ state.committedFrame = lastFrame ∧
      state.committedOffset > 0 then
    state.committedOffset
  else content.length

/-- A frame number without a file is passed over. -/
def readFrameAt (frameSize : Nat) (dir : FramesDir) (state : WalIndexHeader)
    (lastFrame id : Nat) : Except LsmError (List WALEntry) :=
  match frameContent dir id with
  | none => .ok []
  | some content =>
      readFrame frameSize (frameLimit state lastFrame id content) content

def readCommittedEntries (frameSize : Nat) (dir : FramesDir)
    (state : WalIndexHeader) : Except LsmError (List WALEntry) := do
  let lastFrame := max state.committedFrame (lastScanned dir)
  let parts ← (List.range' 1 lastFrame).mapM
    (readFrameAt frameSize dir state lastFrame)
  pure parts.flatten

end IndexedWalSegment

namespace IndexedWal

open IndexedWalSegment

def sortDirs (dirs : List FramesDir) : List FramesDir :=
  dirs.insertionSort (fun a b => a.segmentId ≤ b.segmentId)

/-- The header that bounds the reading of a segment: the index for the active
segment, the highest frame file for a sealed one. -/
def readState (frameSize : Nat) (active : Option WalIndexHeader)
    (dir : FramesDir) : WalIndexHeader :=
  let sealedState : WalIndexHeader :=
    { WalIndexHeader.new dir.segmentId frameSize with
      committedFrame := lastScanned dir }
  match active with
  | some state =>
      if state.segmentId = dir.segmentId then state else sealedState
  | none => sealedState

def readEntriesFromDisk (config : WalConfig) (disk : IndexedDisk) :
    Except LsmError (List WALEntry) := do
  let active := disk.index.bind IndexSlots.readLatest
  let parts ← (sortDirs disk.dirs).mapM fun dir =>
    readCommittedEntries (frameSize config) dir
      (readState (frameSize config) active dir)
  pure (sortByTimestamp parts.flatten)

end IndexedWal

/-! ## The manager -/

/-- `IndexedWalManager` with its disk.  The handles of the index and of the
current segment are opened and closed together. -/
structure IndexedWal where
  disk : IndexedDisk
  handle : Option (IndexSlots × WalIndexHeader × IndexedWalSegment)
  segments : List Nat
  counter : Nat

namespace IndexedWal

open IndexedWalSegment

variable (config : WalConfig)

def active (m : IndexedWal) : Option ActiveSegment :=
  m.handle.map fun (slots, latest, segment) =>
    ⟨m.disk, slots, latest, segment⟩

def setActive (m : IndexedWal) (active : ActiveSegment) : IndexedWal :=
  { m with
    disk := active.disk
    handle := some (active.slots, active.latest, active.segment) }

def new (disk : IndexedDisk) : IndexedWal :=
  ⟨disk, none, [], 0⟩

/-- `WalIndexFile::open`: the slots on disk and the latest header. -/
def openIndex (disk : IndexedDisk) (segmentId frameSize : Nat) :
    IndexSlots × WalIndexHeader :=
  let slots := disk.index.getD IndexSlots.empty
  (slots, slots.readLatest.getD (WalIndexHeader.new segmentId frameSize))

/-- Start a new segment and point the index at it.  The watermark of the old
segment stays in the header. -/
def startSegment (m : IndexedWal) (now : UInt64) : IndexedWal :=
  let segmentId := m.counter
  let dirs :=
    if m.disk.dirs.any (fun dir => dir.segmentId = segmentId) then m.disk.dirs
    else m.disk.dirs ++ [⟨segmentId, now, []⟩]
  let (slots, latest) := openIndex m.disk segmentId (frameSize config)
  let (slots, latest) := slots.commit latest
    { latest with segmentId := segmentId, frameSize := frameSize config }
  { disk := ⟨some slots, true, dirs⟩
    handle := some (slots, latest, ⟨segmentId, 1, [], 0⟩)
    segments := m.segments
    counter := m.counter + 1 }

/-- Close the current segment and keep it among the sealed ones. -/
def sealSegment (m : IndexedWal) (segmentId : Nat) : IndexedWal :=
  { m with
    handle := none
    segments := m.segments.filter (· ≠ segmentId) ++ [segmentId] }

def rotateSegment (m : IndexedWal) (now : UInt64) :
    Except LsmError IndexedWal :=
  match m.active with
  | none => .ok (startSegment config m now)
  | some active =>
      match flushStaging config active with
      | (_, false) => .error (.internal
          "indexed wal segment full with unflushed staging; cannot rotate")
      | (active, true) =>
          .ok (startSegment config
            (sealSegment (m.setActive active) active.segment.segmentId) now)

/-- `scan_existing_segments` leaves the counter alone when there is no root. -/
def scanExistingSegments (m : IndexedWal) : Nat :=
  if m.disk.root then
    (m.disk.dirs.map (·.segmentId)).foldl max 0 + 1
  else m.counter

/-- The segment to go on with, if the index names one that has been used. -/
def resumeSegment (m : IndexedWal) : Option IndexedWal := do
  let slots ← m.disk.index
  let state ← slots.readLatest
  let dir ← m.disk.dirs.find? (fun dir => dir.segmentId = state.segmentId)
  if state.entryCount > 0 ∨ dir.frames ≠ [] then
    some { m with
      handle := some (slots, state,
        ⟨state.segmentId, max (state.committedFrame + 1) 1, [], 0⟩) }
  else none

def initializeWal (m : IndexedWal) (now : UInt64) :
    Except LsmError IndexedWal :=
  let m := { m with counter := scanExistingSegments m }
  match resumeSegment m with
  | some m => .ok m
  | none => rotateSegment config m now

def notInitialized : LsmError :=
  .internal "indexed wal segment not initialized"

/-- `write_entry`: one retry after a rotation. -/
def writeEntry (m : IndexedWal) (entry : WALEntry) (now : UInt64) :
    Except LsmError IndexedWal :=
  match m.active with
  | none => .error notInitialized
  | some active =>
      match appendEntry config active entry with
      | (active, true) => .ok (m.setActive active)
      | (active, false) => do
          let m ← rotateSegment config (m.setActive active) now
          match m.active with
          | none => .error notInitialized
          | some active =>
              match appendEntry config active entry with
              | (active, true) => .ok (m.setActive active)
              | (_, false) => .error (.internal
                  "indexed wal write failed after segment rotation")

/-- The loop of `batch_write_operations`. -/
def batchLoop (m : IndexedWal) (entries : List WALEntry)
    (emptyRotations : Nat) (now : UInt64) : Except LsmError IndexedWal :=
  if entries.isEmpty then .ok m
  else
    match m.active with
    | none => .error notInitialized
    | some active =>
        let (active, written) := appendEntriesBatch config active entries
        let m := m.setActive active
        if noProgress : written = 0 then
          if tooMany : emptyRotations + 1 > 2 then
            .error (.internal
              "indexed wal batch made no progress after rotation")
          else do
            let m ← rotateSegment config m now
            batchLoop m entries (emptyRotations + 1) now
        else if written < entries.length then do
          let m ← rotateSegment config m now
          batchLoop m (entries.drop written) 0 now
        else .ok m
termination_by (entries.length, 3 - emptyRotations)
decreasing_by
  · exact Prod.Lex.right _ (by omega)
  · exact Prod.Lex.left _ _ (by rw [List.length_drop]; omega)

def writeOperation (m : IndexedWal) (key : String) (value : Value)
    (now : UInt64) : Except LsmError IndexedWal :=
  writeEntry config m (.put key value now) now

def writeDelete (m : IndexedWal) (key : String) (now : UInt64) :
    Except LsmError IndexedWal :=
  writeEntry config m (.delete key now) now

def batchWriteOperations (m : IndexedWal) (items : List (String × Value))
    (now : UInt64) : Except LsmError IndexedWal :=
  if items.isEmpty then .ok m
  else
    batchLoop config m (items.map fun item => .put item.1 item.2 now) 0 now

/-- Remove every segment directory and the index, start a new segment. -/
def truncateAfterFlush (m : IndexedWal) (now : UInt64) : IndexedWal :=
  startSegment config
    { m with
      disk := ⟨none, m.disk.root, []⟩
      handle := none
      segments := [] }
    now

def flush (m : IndexedWal) : Except LsmError IndexedWal :=
  match m.active with
  | none => .ok m
  | some active =>
      match flushStaging config active with
      | (active, true) => .ok (m.setActive active)
      | (_, false) => .error (.internal
          "indexed wal flush failed: segment full with staged data")

end IndexedWal

end F4kvsLsm
