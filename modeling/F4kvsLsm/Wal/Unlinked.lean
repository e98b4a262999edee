import F4kvsLsm.Wal.Shutdown

/-!
# A log whose directory is removed under its handle

The files of the log are removed and the directory is created again, while
the manager goes on with what it has open.  The file backends write to their
open file, which no start will find, until a rotation or a truncation creates
the next one.  The indexed backend opens a frame file by its path and cannot
create one in a directory that is gone, until it starts a new segment.
-/

namespace F4kvsLsm

open ByteCodec

/-- A manager and whether what it writes to is in the log directory. -/
inductive LogState (α : Type) where
  | linked (wal : α)
  | unlinked (wal : α)

namespace LogState

variable {α β : Type}

def wal : LogState α → α
  | .linked wal => wal
  | .unlinked wal => wal

def map (handle : α → β) : LogState α → LogState β
  | .linked wal => .linked (handle wal)
  | .unlinked wal => .unlinked (handle wal)

end LogState

/-! ## One file a segment -/

namespace FileWal

variable (engine : FileEngine) (config : WalConfig)

/-- The removal of the directory leaves the manager its open file. -/
def unlink (m : FileWal) : FileWal :=
  { m with
    dir := m.dir.filter fun file => some file.id = m.current.map (·.id) }

/-- The manager without a file that is closed and has no name. -/
def without (m : FileWal) (id : Nat) : FileWal :=
  { m with dir := m.dir.filter fun file => file.id ≠ id }

/-- After a call on an open file without a name: when the open file is
another one it is in the directory. -/
def settle (m m' : FileWal) : LogState FileWal :=
  match m.current with
  | none => .unlinked m'
  | some segment =>
      if m'.current.map (·.id) = some segment.id then .unlinked m'
      else .linked (m'.without segment.id)

def callUnlinked (m : FileWal) (call : WalCall) :
    LogState FileWal × Except LsmError Unit :=
  match FileWal.call engine config m call with
  | .ok m' => (settle m m', .ok ())
  | .error error => (.unlinked m, .error error)

/-- The truncation at the end starts a new file. -/
def markCleanShutdownUnlinked (m : FileWal) (now : UInt64) :
    LogState FileWal × Except LsmError Unit :=
  match markCleanShutdown engine config m now with
  | .ok m' => (.linked m', .ok ())
  | .error error => (.unlinked m, .error error)

/-- The records of the call go into the open file. -/
def Takes (m : FileWal) (call : WalCall) : Prop :=
  ∃ segment, m.current = some segment ∧
    match call with
    | .batchWriteOperations items _ =>
        items ≠ [] ∧ fileLen m.dir segment.id < config.segmentSize ∧
          fileLen m.dir segment.id + (records call.entries).length ≤
            config.segmentSize
    | _ => ∀ entry ∈ call.entries,
        fileLen m.dir segment.id + (entry.encode.length + 4) ≤
          config.segmentSize

/-- The manager behind the rotation that a call makes. -/
def restart (m : FileWal) (now : UInt64) : FileWal :=
  match m.current with
  | none => rotateSegment engine config m now
  | some segment => (rotateSegment engine config m now).without segment.id

end FileWal

/-! ## One directory a segment -/

namespace IndexedWalSegment

variable (config : WalConfig)

/-- The frame file cannot be created. -/
def noFramesDir : LsmError := .io "No such file or directory (os error 2)"

/-- `flush_staging`; what is staged stays. -/
def flushStagingUnlinked (segment : IndexedWalSegment) :
    Except LsmError Bool :=
  if segment.staging.isEmpty then .ok true
  else if hasFrameCapacity config segment then .error noFramesDir
  else .ok false

def push (segment : IndexedWalSegment) (encoded : Bytes) :
    IndexedWalSegment :=
  { segment with
    staging := segment.staging ++ encoded
    entriesInStaging := segment.entriesInStaging + 1 }

/-- The part of `append_entry` for an entry that is longer than a frame. -/
def commitFrameUnlinked (segment : IndexedWalSegment) :
    Except LsmError Bool :=
  match flushStagingUnlinked config segment with
  | .error error => .error error
  | .ok false => .ok false
  | .ok true =>
      if hasFrameCapacity config segment then .error noFramesDir
      else .ok false

/-- `append_entry` -/
def appendEntryUnlinked (segment : IndexedWalSegment) (entry : WALEntry) :
    IndexedWalSegment × Except LsmError Bool :=
  let encoded := encodeEntry entry
  if encoded.length > frameSize config then
    (segment, commitFrameUnlinked config segment)
  else if ¬ segment.staging.isEmpty ∧
      segment.staging.length + encoded.length > frameSize config then
    -- With something staged the flush never succeeds.
    (segment, flushStagingUnlinked config segment)
  else if segment.staging.isEmpty ∧ ¬ hasFrameCapacity config segment then
    (segment, .ok false)
  else if segment.staging.isEmpty ∧ encoded.length = frameSize config then
    (push segment encoded,
      flushStagingUnlinked config (push segment encoded))
  else if config.syncMode = .fsync ∨ config.syncMode = .fsyncAsync then
    (push segment encoded,
      flushStagingUnlinked config (push segment encoded))
  else (push segment encoded, .ok true)

/-- The loop of `append_entries_batch`. -/
def appendEntriesLoopUnlinked (segment : IndexedWalSegment) :
    List WALEntry → IndexedWalSegment × Except LsmError (Nat × Bool)
  | [] => (segment, .ok (0, true))
  | entry :: entries =>
      let encoded := encodeEntry entry
      if encoded.length > frameSize config then
        (segment, (commitFrameUnlinked config segment).map (0, ·))
      else if ¬ segment.staging.isEmpty ∧
          segment.staging.length + encoded.length > frameSize config then
        (segment, (flushStagingUnlinked config segment).map (0, ·))
      else if segment.staging.isEmpty ∧
          ¬ hasFrameCapacity config segment then
        (segment, .ok (0, false))
      else
        let rest := appendEntriesLoopUnlinked (push segment encoded) entries
        (rest.1, rest.2.map fun counted => (counted.1 + 1, counted.2))

/-- `append_entries_batch` -/
def appendEntriesBatchUnlinked (segment : IndexedWalSegment)
    (entries : List WALEntry) : IndexedWalSegment × Except LsmError Nat :=
  match appendEntriesLoopUnlinked config segment entries with
  | (segment, .error error) => (segment, .error error)
  | (segment, .ok (written, false)) => (segment, .ok written)
  | (segment, .ok (written, true)) =>
      match flushStagingUnlinked config segment with
      | .error error => (segment, .error error)
      | .ok true => (segment, .ok written)
      | .ok false =>
          ({ segment with staging := [], entriesInStaging := 0 },
            .ok (written - segment.entriesInStaging))

end IndexedWalSegment

namespace IndexedWal

open IndexedWalSegment

variable (config : WalConfig)

/-- The removal of the directory. -/
def unlink (m : IndexedWal) : IndexedWal :=
  { m with disk := ⟨none, false, []⟩ }

/-- `rotate_segment`: the new segment is in the directory. -/
def rotateSegmentUnlinked (m : IndexedWal) (segment : IndexedWalSegment)
    (now : UInt64) : Except LsmError IndexedWal :=
  match flushStagingUnlinked config segment with
  | .error error => .error error
  | .ok false => .error (.internal
      "indexed wal segment full with unflushed staging; cannot rotate")
  | .ok true =>
      .ok (startSegment config (sealSegment m segment.segmentId) now)

/-- The second attempt of `write_entry`. -/
def retryEntry (m : IndexedWal) (entry : WALEntry) :
    LogState IndexedWal × Except LsmError Unit :=
  match m.active with
  | none => (.linked m, .error notInitialized)
  | some active =>
      match appendEntry config active entry with
      | (active, true) => (.linked (m.setActive active), .ok ())
      | (active, false) =>
          (.linked (m.setActive active), .error (.internal
            "indexed wal write failed after segment rotation"))

/-- `write_entry` -/
def writeEntryUnlinked (m : IndexedWal) (entry : WALEntry) (now : UInt64) :
    LogState IndexedWal × Except LsmError Unit :=
  match m.handle with
  | none => (.unlinked m, .error notInitialized)
  | some (slots, latest, segment) =>
      let (segment, appended) := appendEntryUnlinked config segment entry
      let m := { m with handle := some (slots, latest, segment) }
      match appended with
      | .error error => (.unlinked m, .error error)
      | .ok true => (.unlinked m, .ok ())
      | .ok false =>
          match rotateSegmentUnlinked config m segment now with
          | .error error => (.unlinked m, .error error)
          | .ok m => retryEntry config m entry

/-- What is left of a batch behind a rotation. -/
def continueBatch (m : IndexedWal) (entries : List WALEntry)
    (emptyRotations : Nat) (now : UInt64) :
    LogState IndexedWal × Except LsmError Unit :=
  match batchLoop config m entries emptyRotations now with
  | .ok m => (.linked m, .ok ())
  | .error error => (.linked m, .error error)

/-- `batch_write_operations` -/
def batchLoopUnlinked (m : IndexedWal) (entries : List WALEntry)
    (now : UInt64) : LogState IndexedWal × Except LsmError Unit :=
  if entries.isEmpty then (.unlinked m, .ok ())
  else
    match m.handle with
    | none => (.unlinked m, .error notInitialized)
    | some (slots, latest, segment) =>
        let (segment, appended) :=
          appendEntriesBatchUnlinked config segment entries
        let m := { m with handle := some (slots, latest, segment) }
        match appended with
        | .error error => (.unlinked m, .error error)
        | .ok written =>
            if written = entries.length then (.unlinked m, .ok ())
            else
              match rotateSegmentUnlinked config m segment now with
              | .error error => (.unlinked m, .error error)
              | .ok m =>
                  continueBatch config m (entries.drop written)
                    (if written = 0 then 1 else 0) now

def callUnlinked (m : IndexedWal) :
    WalCall → LogState IndexedWal × Except LsmError Unit
  | .writeOperation key value now =>
      writeEntryUnlinked config m (.put key value now) now
  | .writeDelete key now =>
      writeEntryUnlinked config m (.delete key now) now
  | .batchWriteOperations items now =>
      batchLoopUnlinked config m
        (items.map fun item => .put item.1 item.2 now) now

/-- `flush` leaves what is staged. -/
def flushUnlinked (m : IndexedWal) : Except LsmError Unit :=
  match m.handle with
  | none => .ok ()
  | some (_, _, segment) =>
      match flushStagingUnlinked config segment with
      | .ok true => .ok ()
      | .ok false => .error (.internal
          "indexed wal flush failed: segment full with staged data")
      | .error error => .error error

def markCleanShutdownUnlinked (m : IndexedWal) (now : UInt64) :
    LogState IndexedWal × Except LsmError Unit :=
  match writeEntryUnlinked config m (.checkpoint now) now with
  | (log, .error error) => (log, .error error)
  | (.linked m, .ok ()) =>
      match flush config m with
      | .ok m => (.linked (truncateAfterFlush config m now), .ok ())
      | .error error => (.linked m, .error error)
  | (.unlinked m, .ok ()) =>
      match flushUnlinked config m with
      | .ok () => (.linked (truncateAfterFlush config m now), .ok ())
      | .error error => (.unlinked m, .error error)

end IndexedWal

/-! ## The handle -/

namespace WalHandle

variable (config : WalConfig)

/-- `clear_wal_directory` -/
def unlink : WalHandle → WalHandle
  | .segment wal => .segment wal.unlink
  | .frame wal => .frame wal.unlink
  | .indexed wal => .indexed wal.unlink

def callUnlinked (handle : WalHandle) (call : WalCall) :
    LogState WalHandle × Except LsmError Unit :=
  match handle with
  | .segment wal =>
      (FileWal.callUnlinked .segment config wal call).map
        (.map .segment) id
  | .frame wal =>
      (FileWal.callUnlinked .frame config wal call).map (.map .frame) id
  | .indexed wal =>
      (IndexedWal.callUnlinked config wal call).map (.map .indexed) id

def flushUnlinked (handle : WalHandle) : WalHandle × Except LsmError Unit :=
  match handle with
  | .segment wal => (.segment (FileWal.flush .segment wal), .ok ())
  | .frame wal => (.frame (FileWal.flush .frame wal), .ok ())
  | .indexed wal => (.indexed wal, IndexedWal.flushUnlinked config wal)

def markCleanShutdownUnlinked (handle : WalHandle) (now : UInt64) :
    LogState WalHandle × Except LsmError Unit :=
  match handle with
  | .segment wal =>
      (FileWal.markCleanShutdownUnlinked .segment config wal now).map
        (.map .segment) id
  | .frame wal =>
      (FileWal.markCleanShutdownUnlinked .frame config wal now).map
        (.map .frame) id
  | .indexed wal =>
      (IndexedWal.markCleanShutdownUnlinked config wal now).map
        (.map .indexed) id

/-- The call would write into the file that has no name any more.  There is
no frame file to write into. -/
def Takes (handle : WalHandle) (call : WalCall) : Prop :=
  match handle with
  | .segment wal => wal.Takes config call
  | .frame wal => wal.Takes config call
  | .indexed _ => False

end WalHandle

/-- What a start finds in the log directory. -/
def LogState.disk : LogState WalHandle → WalDisk
  | .linked wal => wal.disk
  | .unlinked wal => .empty wal.disk.engine

end F4kvsLsm
