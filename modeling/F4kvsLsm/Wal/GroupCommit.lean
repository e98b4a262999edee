import F4kvsLsm.Lib.Pipeline
import F4kvsLsm.Wal.FileWalInvariant

/-!
# Group commit

Several calls are at work on one log of the segment backend.  A call takes the
lock of the queue and the lock of the open segment one after the other and
gives each up in between, so it is a sequence of steps with other calls' steps
among them.  `synced` is what is known to be on durable storage of each file.
No operation fails in the file system.

`log`, `durable` and `dropped` say what has been written, what has been synced
and what was given up; no step reads them.
-/

namespace F4kvsLsm

open ByteCodec FileWal

/-- `WalConfig` with what it says about group commit. -/
structure CommitConfig extends WalConfig where
  groupCommitEnabled : Bool
  groupCommitWaitDurable : Bool

/-- `WalConfig::default`. -/
def CommitConfig.defaults : CommitConfig where
  segmentSize := 64 * 1024 * 1024
  framePageSize := 4096
  indexedFrameCount := 4096
  syncMode := .fsync
  retentionPeriod := 3600
  retentionAfterFlush := 60
  maxSegments := 10
  groupCommitEnabled := false
  groupCommitWaitDurable := false

/-- The durability presets. -/
inductive WalDurability where
  | strict
  | amortized
  | buffered
  deriving DecidableEq, Repr

/-- `apply_to`; the idle period, which only says when the background flusher
runs, is left out. -/
def WalDurability.applyTo (durability : WalDurability)
    (wal : CommitConfig) : CommitConfig :=
  match durability with
  | .strict => { wal with groupCommitEnabled := false }
  | .amortized =>
      { wal with groupCommitEnabled := true, syncMode := .fsyncAsync }
  | .buffered =>
      { wal with groupCommitEnabled := false, syncMode := .flush }

/-- An entry that a call has handed to the log.  `queued` ones went through
`write_entry_group_commit`. -/
structure PendingEntry where
  id : Nat
  queued : Bool
  entry : WALEntry

def entriesOf (list : List PendingEntry) : List WALEntry :=
  list.map PendingEntry.entry

/-- The bytes that `batch_write_entries` prepares. -/
def dataToWrite (list : List PendingEntry) : Bytes :=
  records (entriesOf list)

/-- The records of a batch that does not go through the queue. -/
def directRecords (first : Nat) (entries : List WALEntry) :
    List PendingEntry :=
  entries.mapIdx fun index entry => ⟨first + index, false, entry⟩

/-! ## The files -/

structure LogFiles where
  wal : FileWal
  synced : Nat → Bytes
  log : List PendingEntry
  durable : List PendingEntry
  dropped : List PendingEntry

def fileContent (dir : List WalFile) (id : Nat) : Bytes :=
  match dir.find? (fun file => file.id = id) with
  | some file => file.content
  | none => []

/-- The directory after a power loss.  Its listing is kept, and of each file
what was synced. -/
def powerLoss (synced : Nat → Bytes) (dir : List WalFile) : List WalFile :=
  dir.map fun file => { file with content := synced file.id }

namespace LogFiles

variable (config : CommitConfig)

/-- `sync_all` on the open segment. -/
def syncOpen (files : LogFiles) : LogFiles :=
  match files.wal.current with
  | some segment =>
      { files with
        synced := fun id =>
          if id = segment.id then fileContent files.wal.dir segment.id
          else files.synced id
        durable := files.log }
  | none => files

/-- `sync_after_flush`.  In the asynchronous mode a thread of its own syncs
the file later. -/
def syncAfterFlush (files : LogFiles) : LogFiles :=
  if config.syncMode = .fsync then files.syncOpen else files

/-- `WALSegment::flush` on the open segment. -/
def flushOpen (files : LogFiles) : LogFiles :=
  syncAfterFlush config { files with wal := flush .segment files.wal }

/-- `rotate_segment` until it gives up the lock.  Closing the open segment and
creating the next one both sync whatever the mode is. -/
def install (files : LogFiles) (now : UInt64) : LogFiles :=
  let closed := syncOpen { files with wal := flush .segment files.wal }
  syncOpen { closed with
    wal := { rotateSegment .segment config.toWalConfig files.wal now with
      counter := files.wal.counter } }

/-- The rest of `rotate_segment`. -/
def raiseCounter (files : LogFiles) : LogFiles :=
  { files with wal := { files.wal with counter := files.wal.counter + 1 } }

/-- The length of the open segment. -/
def openLen (files : LogFiles) : Nat :=
  match files.wal.current with
  | some segment => fileLen files.wal.dir segment.id
  | none => 0

/-- The last step of `batch_write_entries`. -/
def append (files : LogFiles) (list : List PendingEntry) : LogFiles :=
  match files.wal.current with
  | some segment =>
      syncAfterFlush config { files with
        wal := appendBatch .segment files.wal segment (entriesOf list)
        log := files.log ++ list }
  | none => files

/-- The segment's `write_entry`; `none` asks for a rotation. -/
def writeEntry (files : LogFiles) (record : PendingEntry) :
    Option LogFiles :=
  match files.wal.current with
  | some segment =>
      match segmentWriteEntry config.toWalConfig files.wal.dir segment
          record.entry with
      | (dir, segment, true) =>
          some (syncAfterFlush config { files with
            wal := { files.wal with dir := dir, current := some segment }
            log := files.log ++ [record] })
      | (_, _, false) => none
  | none => none

/-- An opened log.  Of the files that were there before, `synced` is on
durable storage. -/
def opened (dir : List WalFile) (synced : Nat → Bytes) (now : UInt64) :
    LogFiles :=
  let wal := initializeWal .segment config.toWalConfig (FileWal.new dir) now
  { wal := wal
    synced := fun id =>
      if dir.any (fun file => file.id = id) then synced id
      else fileContent wal.dir id
    log := [], durable := [], dropped := [] }

end LogFiles

/-! ## The writers -/

/-- What a call does when its batch is written: `batch_write_operations`
writes its own entries after those it found in the queue, and `flush_wal`
syncs.  The latter knows what was acknowledged before it was called. -/
inductive Next where
  | finished
  | batch (first : Nat) (entries : List WALEntry)
  | sync (before : List Nat)

/-- Where a call takes the lock of the open segment: `batch_write_entries`
three times, `write_entry` once or twice. -/
inductive Stage where
  | full (list : List PendingEntry) (next : Next)
  | overflow (list : List PendingEntry) (next : Next)
  | append (list : List PendingEntry) (next : Next)
  | attempt (id : Nat) (entry : WALEntry)
  | retry (id : Nat) (entry : WALEntry)

/-- A call at work on the files: at a stage, about to rotate before it, or
about to raise the counter after the rotation. -/
inductive Writer where
  | turn (stage : Stage)
  | rotate (stage : Stage)
  | raise (stage : Stage)

def Stage.records : Stage → List PendingEntry
  | .full list _ => list
  | .overflow list _ => list
  | .append list _ => list
  | .attempt id entry => [⟨id, false, entry⟩]
  | .retry id entry => [⟨id, false, entry⟩]

def Stage.next : Stage → Next
  | .full _ next => next
  | .overflow _ next => next
  | .append _ next => next
  | .attempt _ _ => .finished
  | .retry _ _ => .finished

namespace Writer

def stage : Writer → Stage
  | .turn stage => stage
  | .rotate stage => stage
  | .raise stage => stage

def records (writer : Writer) : List PendingEntry := writer.stage.records

def next (writer : Writer) : Next := writer.stage.next

variable (config : CommitConfig)

/-- One step of a call, and where it is afterwards; `none` when its batch is
dealt with. -/
def step (files : LogFiles) (now : UInt64) :
    Writer → LogFiles × Option Writer
  | .turn (.full list next) =>
      if files.openLen ≥ config.segmentSize then
        (files, some (.rotate (.overflow list next)))
      else (files, some (.turn (.overflow list next)))
  | .turn (.overflow list next) =>
      if files.openLen + (dataToWrite list).length > config.segmentSize then
        (files, some (.rotate (.append list next)))
      else (files, some (.turn (.append list next)))
  | .turn (.append list _) => (files.append config list, none)
  | .turn (.attempt id entry) =>
      match files.writeEntry config ⟨id, false, entry⟩ with
      | some files => (files, none)
      | none => (files, some (.rotate (.retry id entry)))
  | .turn (.retry id entry) =>
      match files.writeEntry config ⟨id, false, entry⟩ with
      | some files => (files, none)
      | none =>
          ({ files with dropped := files.dropped ++ [⟨id, false, entry⟩] },
            none)
  | .rotate stage => (files.install config now, some (.raise stage))
  | .raise stage => (files.raiseCounter, some (.turn stage))

end Writer

/-! ## The log manager -/

/-- `writers` stand in the order in which they took their batches.  `calls`
are the calls of `flush_wal` that have not looked at the queue yet, `syncs`
those that are about to sync. -/
structure CommitState where
  files : LogFiles
  issued : List PendingEntry
  queue : List PendingEntry
  writers : List Writer
  calls : List (List Nat)
  syncs : List (List Nat)
  acked : List Nat

namespace CommitState

variable (config : CommitConfig)

def opened (files : LogFiles) : CommitState :=
  ⟨files, [], [], [], [], [], []⟩

/-- A call between `before` and `after` goes on. -/
def follow (s : CommitState) (before after : List Writer) :
    Next → CommitState
  | .finished => { s with writers := before ++ after }
  | .batch first entries =>
      { s with
        writers := before ++
          .turn (.full (directRecords first entries) .finished) :: after }
  | .sync ids =>
      { s with writers := before ++ after, syncs := s.syncs ++ [ids] }

/-- `flush_pending_group_commit` and `flush_pending` take the queue. -/
def takePending (s : CommitState) (next : Next) : CommitState :=
  if s.queue.isEmpty then s.follow s.writers [] next
  else
    { s with
      queue := []
      writers := s.writers ++ [.turn (.full s.queue next)] }

/-- Only with group commit is there a queue to look at. -/
def takeFirst (s : CommitState) (next : Next) : CommitState :=
  if config.groupCommitEnabled then s.takePending next
  else s.follow s.writers [] next

/-- `write_entry_group_commit` up to the wait for the flusher. -/
def enqueue (s : CommitState) (entry : WALEntry) : CommitState :=
  let record : PendingEntry := ⟨s.issued.length, true, entry⟩
  { s with
    issued := s.issued ++ [record]
    queue := s.queue ++ [record]
    acked :=
      if config.groupCommitWaitDurable then s.acked
      else s.acked ++ [record.id] }

def writeEntry (s : CommitState) (entry : WALEntry) : CommitState :=
  { s with
    issued := s.issued ++ [⟨s.issued.length, false, entry⟩]
    writers := s.writers ++ [.turn (.attempt s.issued.length entry)] }

def batchWriteOperations (s : CommitState) (entries : List WALEntry) :
    CommitState :=
  takeFirst config
    { s with issued := s.issued ++ directRecords s.issued.length entries }
    (.batch s.issued.length entries)

/-- One step of `writer`.  When its batch is dealt with, those that wait for
it are told. -/
def advance (s : CommitState) (before : List Writer) (writer : Writer)
    (after : List Writer) (now : UInt64) : CommitState :=
  match writer.step config s.files now with
  | (files, some writer) =>
      { s with files := files, writers := before ++ writer :: after }
  | (files, none) =>
      follow
        { s with
          files := files
          acked := s.acked ++ writer.records.map PendingEntry.id }
        before after writer.next

end CommitState

inductive CommitAction where
  | enqueue (entry : WALEntry)
  | flushPending
  | writeEntry (entry : WALEntry)
  | batch (entries : List WALEntry)
  | callFlush
  | enterFlush (ids : List Nat)
  | advance (before : List Writer) (writer : Writer)
  | finishFlush (ids : List Nat)
  | backgroundSync

/-- The steps of all calls, of the background flusher and of the threads that
sync in the background. -/
inductive CommitStep (config : CommitConfig) :
    CommitState → CommitAction → CommitState → Prop where
  | enqueue (s : CommitState) (entry : WALEntry)
      (enabled : config.groupCommitEnabled = true) :
      CommitStep config s (.enqueue entry) (s.enqueue config entry)
  | flushPending (s : CommitState)
      (enabled : config.groupCommitEnabled = true) :
      CommitStep config s .flushPending (s.takePending .finished)
  | writeEntry (s : CommitState) (entry : WALEntry)
      (disabled : config.groupCommitEnabled = false) :
      CommitStep config s (.writeEntry entry) (s.writeEntry entry)
  | batch (s : CommitState) (entries : List WALEntry)
      (some : entries ≠ []) :
      CommitStep config s (.batch entries)
        (s.batchWriteOperations config entries)
  | callFlush (s : CommitState) :
      CommitStep config s .callFlush
        { s with calls := s.calls ++ [s.acked] }
  | enterFlush (s : CommitState) (before : List (List Nat))
      (ids : List Nat) (after : List (List Nat))
      (split : s.calls = before ++ ids :: after) :
      CommitStep config s (.enterFlush ids)
        (CommitState.takeFirst config { s with calls := before ++ after }
          (.sync ids))
  | advance (s : CommitState) (before : List Writer) (writer : Writer)
      (after : List Writer) (now : UInt64)
      (split : s.writers = before ++ writer :: after) :
      CommitStep config s (.advance before writer)
        (s.advance config before writer after now)
  | finishFlush (s : CommitState) (before : List (List Nat))
      (ids : List Nat) (after : List (List Nat))
      (split : s.syncs = before ++ ids :: after) :
      CommitStep config s (.finishFlush ids)
        { s with
          files := s.files.flushOpen config
          syncs := before ++ after }
  | backgroundSync (s : CommitState)
      (async : config.syncMode = .fsyncAsync) :
      CommitStep config s .backgroundSync
        { s with files := s.files.syncOpen }

/-- The runs of a log manager. -/
def CommitRun (config : CommitConfig) : CommitState → CommitState → Prop :=
  Transitions.Reaches (CommitStep config) fun _ _ => True

end F4kvsLsm
