import F4kvsLsm.Wal.FileWalWrites
import F4kvsLsm.Wal.IndexedWrites

/-!
# The log handle and what it acknowledges

`WalHandle` delegates to the configured backend.  A sequence of calls whose
sizes and values a backend can represent is acknowledged and read back by a
fresh manager on the same directory.  Outside these conditions a call can be
acknowledged without having written anything.
-/

namespace F4kvsLsm

open ByteCodec

/-- The backends. -/
inductive WalEngine where
  | segment
  | frame
  | indexed
  deriving DecidableEq, Repr

def FileEngine.walEngine : FileEngine → WalEngine
  | .segment => .segment
  | .frame => .frame

/-- Unified WAL handle delegating to the configured backend. -/
inductive WalHandle where
  | segment (wal : FileWal)
  | frame (wal : FileWal)
  | indexed (wal : IndexedWal)

/-- The write calls of the handle; `now` is the clock during the call. -/
inductive WalCall where
  | writeOperation (key : String) (value : Value) (now : UInt64)
  | writeDelete (key : String) (now : UInt64)
  | batchWriteOperations (items : List (String × Value)) (now : UInt64)

def WalCall.entries : WalCall → List WALEntry
  | .writeOperation key value now => [.put key value now]
  | .writeDelete key now => [.delete key now]
  | .batchWriteOperations items now =>
      items.map fun item => .put item.1 item.2 now

namespace FileWal

variable (engine : FileEngine) (config : WalConfig)

def call (m : FileWal) : WalCall → Except LsmError FileWal
  | .writeOperation key value now =>
      writeOperation engine config m key value now
  | .writeDelete key now => writeDelete engine config m key now
  | .batchWriteOperations items now =>
      batchWriteOperations engine config m items now

def Admissible : WalCall → Prop
  | .batchWriteOperations items now =>
      ∀ item ∈ items, engine.Storable config.segmentSize
        (.put item.1 item.2 now)
  | call => ∀ entry ∈ call.entries, Writable engine config entry

end FileWal

/-- A log directory of one of the backends. -/
inductive WalDisk where
  | segment (dir : List WalFile)
  | frame (dir : List WalFile)
  | indexed (disk : IndexedDisk)

namespace WalDisk

def engine : WalDisk → WalEngine
  | .segment _ => .segment
  | .frame _ => .frame
  | .indexed _ => .indexed

/-- A directory in which nothing has been written. -/
def empty : WalEngine → WalDisk
  | .segment => .segment []
  | .frame => .frame []
  | .indexed => .indexed ⟨none, false, []⟩

/-- `WalHandle::new` and `initialize`. -/
def openWal (config : WalConfig) (now : UInt64) :
    WalDisk → Except LsmError WalHandle
  | .segment dir =>
      .ok (.segment (FileWal.initializeWal .segment config (.new dir) now))
  | .frame dir =>
      .ok (.frame (FileWal.initializeWal .frame config (.new dir) now))
  | .indexed disk =>
      (IndexedWal.initializeWal config (.new disk) now).map .indexed

/-- `read_entries_for_recovery` of a fresh manager. -/
def readEntriesForRecovery (config : WalConfig) :
    WalDisk → Except LsmError (List WALEntry)
  | .segment dir => FileWal.readEntriesFromDisk .segment config dir
  | .frame dir => FileWal.readEntriesFromDisk .frame config dir
  | .indexed disk => IndexedWal.readEntriesFromDisk config disk

/-- A disk that sessions of its backend have left behind. -/
def OnDisk (config : WalConfig) : WalDisk → Prop
  | .segment dir => FileWal.OnDisk .segment dir
  | .frame dir => FileWal.OnDisk .frame dir
  | .indexed disk => IndexedWal.OnDisk config disk

/-- What the files add up to. -/
def recovered (config : WalConfig) : WalDisk → List WALEntry
  | .segment dir => FileWal.recovered .segment config dir
  | .frame dir => FileWal.recovered .frame config dir
  | .indexed disk => disk.recovered

/-- The bytes of every whole record are still where they were. -/
def Kept : WalDisk → WalDisk → Prop
  | .segment dir, .segment dir' => FileWal.Extends .segment dir dir'
  | .frame dir, .frame dir' => FileWal.Extends .frame dir dir'
  | .indexed disk, .indexed disk' =>
      IndexedWalSegment.KeepsFrames disk.dirs disk'.dirs
  | _, _ => False

theorem readEntriesForRecovery_onDisk
    {config : WalConfig} {disk : WalDisk} (onDisk : disk.OnDisk config) :
    disk.readEntriesForRecovery config =
      .ok (sortByTimestamp (disk.recovered config)) := by
  cases disk with
  | segment dir => exact FileWal.readEntriesFromDisk_onDisk onDisk
  | frame dir => exact FileWal.readEntriesFromDisk_onDisk onDisk
  | indexed disk => exact IndexedWal.readEntriesFromDisk_onDisk onDisk

theorem empty_onDisk (config : WalConfig) (engine : WalEngine) :
    (empty engine).OnDisk config := by
  cases engine with
  | segment => exact ⟨List.Pairwise.nil, by simp⟩
  | frame => exact ⟨List.Pairwise.nil, by simp⟩
  | indexed =>
      exact ⟨List.Pairwise.nil, by simp, by simp,
        by simp [IndexedDisk.latest]⟩

theorem empty_recovered (config : WalConfig) (engine : WalEngine) :
    (empty engine).recovered config = [] := by
  cases engine <;> rfl

theorem empty_engine (engine : WalEngine) : (empty engine).engine = engine := by
  cases engine <;> rfl

theorem Kept.refl (disk : WalDisk) : disk.Kept disk := by
  cases disk with
  | segment dir => exact FileWal.Extends.refl dir
  | frame dir => exact FileWal.Extends.refl dir
  | indexed disk => exact IndexedWalSegment.KeepsFrames.refl disk.dirs

theorem Kept.trans
    {first second third : WalDisk} (early : first.Kept second)
    (late : second.Kept third) : first.Kept third := by
  cases first <;> cases second <;> try exact early.elim
  all_goals cases third <;> try exact late.elim
  · exact FileWal.Extends.trans early late
  · exact FileWal.Extends.trans early late
  · exact IndexedWalSegment.KeepsFrames.trans early late

end WalDisk

namespace WalHandle

variable (config : WalConfig)

/-- The directory under the handle. -/
def disk : WalHandle → WalDisk
  | .segment wal => .segment wal.dir
  | .frame wal => .frame wal.dir
  | .indexed wal => .indexed wal.disk

def writeOperation (handle : WalHandle) (key : String) (value : Value)
    (now : UInt64) : Except LsmError WalHandle :=
  match handle with
  | .segment wal =>
      (FileWal.writeOperation .segment config wal key value now).map .segment
  | .frame wal =>
      (FileWal.writeOperation .frame config wal key value now).map .frame
  | .indexed wal =>
      (IndexedWal.writeOperation config wal key value now).map .indexed

def writeDelete (handle : WalHandle) (key : String) (now : UInt64) :
    Except LsmError WalHandle :=
  match handle with
  | .segment wal =>
      (FileWal.writeDelete .segment config wal key now).map .segment
  | .frame wal =>
      (FileWal.writeDelete .frame config wal key now).map .frame
  | .indexed wal => (IndexedWal.writeDelete config wal key now).map .indexed

def batchWriteOperations (handle : WalHandle) (items : List (String × Value))
    (now : UInt64) : Except LsmError WalHandle :=
  match handle with
  | .segment wal =>
      (FileWal.batchWriteOperations .segment config wal items now).map
        .segment
  | .frame wal =>
      (FileWal.batchWriteOperations .frame config wal items now).map .frame
  | .indexed wal =>
      (IndexedWal.batchWriteOperations config wal items now).map .indexed

def call (handle : WalHandle) : WalCall → Except LsmError WalHandle
  | .writeOperation key value now =>
      writeOperation config handle key value now
  | .writeDelete key now => writeDelete config handle key now
  | .batchWriteOperations items now =>
      batchWriteOperations config handle items now

def flush (handle : WalHandle) : Except LsmError WalHandle :=
  match handle with
  | .segment wal => .ok (.segment (FileWal.flush .segment wal))
  | .frame wal => .ok (.frame (FileWal.flush .frame wal))
  | .indexed wal => (IndexedWal.flush config wal).map .indexed

def truncateAfterFlush (handle : WalHandle) (now : UInt64) : WalHandle :=
  match handle with
  | .segment wal =>
      .segment (FileWal.truncateAfterFlush .segment config wal now)
  | .frame wal => .frame (FileWal.truncateAfterFlush .frame config wal now)
  | .indexed wal => .indexed (IndexedWal.truncateAfterFlush config wal now)

/-- One call after the other, up to the first error. -/
def runCalls (handle : WalHandle) (calls : List WalCall) :
    Except LsmError WalHandle :=
  calls.foldlM (call config) handle

/-! ## What a handle holds -/

def Ready : WalHandle → Prop
  | .segment wal => FileWal.Ready .segment config wal
  | .frame wal => FileWal.Ready .frame config wal
  | .indexed wal => IndexedWal.Ready config wal

/-- The entries that a call of a backend writes and that are read back.  A
single entry of the file backends has to fit a segment of its own; in a batch
an entry only has to be short enough for the reader.  The indexed backend has
to put the entry into a frame before it returns. -/
def Admissible (engine : WalEngine) (call : WalCall) : Prop :=
  match engine, call with
  | .segment, .batchWriteOperations items now =>
      ∀ item ∈ items, FileEngine.segment.Storable config.segmentSize
        (.put item.1 item.2 now)
  | .frame, .batchWriteOperations items now =>
      ∀ item ∈ items, FileEngine.frame.Storable config.segmentSize
        (.put item.1 item.2 now)
  | .indexed, .batchWriteOperations items now =>
      IndexedWal.BatchFits config
        (items.map fun item => .put item.1 item.2 now)
  | .segment, call =>
      ∀ entry ∈ call.entries, FileWal.Writable .segment config entry
  | .frame, call =>
      ∀ entry ∈ call.entries, FileWal.Writable .frame config entry
  | .indexed, call =>
      ∀ entry ∈ call.entries,
        IndexedWalSegment.Committable config entry

section

variable {config : WalConfig} {handle : WalHandle}

theorem Admissible.segment
    {call : WalCall} (admissible : Admissible config .segment call) :
    FileWal.Admissible .segment config call := by
  cases call <;> exact admissible

theorem Admissible.frame
    {call : WalCall} (admissible : Admissible config .frame call) :
    FileWal.Admissible .frame config call := by
  cases call <;> exact admissible

theorem Admissible.storable
    {engine : FileEngine} {call : WalCall}
    (admissible : Admissible config engine.walEngine call) :
    ∀ entry ∈ call.entries, engine.Storable config.segmentSize entry := by
  intro entry member
  cases engine <;> cases call with
  | writeOperation key value now =>
      exact (admissible entry member).storable
  | writeDelete key now => exact (admissible entry member).storable
  | batchWriteOperations items now =>
      rcases List.mem_map.mp member with ⟨item, inItems, rfl⟩
      exact admissible item inItems

theorem Ready.onDisk (ready : handle.Ready config) :
    handle.disk.OnDisk config := by
  cases handle with
  | segment wal =>
      obtain ⟨older, last, own, layout⟩ := ready
      exact layout.onDisk
  | frame wal =>
      obtain ⟨older, last, own, layout⟩ := ready
      exact layout.onDisk
  | indexed wal =>
      obtain ⟨active, older, dir, later, layout⟩ := ready
      exact layout.onDisk

/-- `handle'` is open, holds what `handle` held followed by `added`, and has
kept the records. -/
structure Grows (config : WalConfig) (handle handle' : WalHandle)
    (added : List WALEntry) : Prop where
  engine : handle'.disk.engine = handle.disk.engine
  ready : handle'.Ready config
  recovered : handle'.disk.recovered config =
    handle.disk.recovered config ++ added
  kept : handle.disk.Kept handle'.disk

private theorem fileBatch_grows
    {engine : FileEngine} {wal : FileWal} {items : List (String × Value)}
    (ready : FileWal.Ready engine config wal) {now : UInt64}
    (storable : ∀ item ∈ items, engine.Storable config.segmentSize
      (.put item.1 item.2 now)) :
    ∃ wal', FileWal.batchWriteOperations engine config wal items now =
        .ok wal' ∧
      FileWal.Grows engine config wal wal'
        (items.map fun item => .put item.1 item.2 now) := by
  by_cases empty : items.isEmpty
  · have nil : items = [] := List.isEmpty_iff.mp empty
    subst nil
    exact ⟨wal, rfl, FileWal.grows_self ready⟩
  · rw [FileWal.batchWriteOperations, if_neg empty]
    refine FileWal.batchWriteEntries_grows ready ?_ now
    intro entry member
    obtain ⟨item, itemMember, rfl⟩ := List.mem_map.mp member
    exact storable item itemMember

private theorem indexedBatch_grows
    {wal : IndexedWal} {items : List (String × Value)}
    (ready : IndexedWal.Ready config wal) {now : UInt64}
    (fits : IndexedWal.BatchFits config
      (items.map fun item => .put item.1 item.2 now)) :
    ∃ wal', IndexedWal.batchWriteOperations config wal items now =
        .ok wal' ∧
      IndexedWal.Grows config wal wal'
        (items.map fun item => .put item.1 item.2 now) := by
  by_cases empty : items.isEmpty
  · have nil : items = [] := List.isEmpty_iff.mp empty
    subst nil
    exact ⟨wal, rfl, IndexedWal.grows_self ready⟩
  · rw [IndexedWal.batchWriteOperations, if_neg empty]
    exact IndexedWal.batchLoop_grows ready fits now

private theorem fileWrite_grows
    {engine : FileEngine} {wal : FileWal} {entry : WALEntry}
    (ready : FileWal.Ready engine config wal)
    (writable : ∀ other ∈ [entry], FileWal.Writable engine config other)
    (now : UInt64) :
    ∃ wal', FileWal.writeEntry engine config wal entry now = .ok wal' ∧
      FileWal.Grows engine config wal wal' [entry] :=
  FileWal.writeEntry_grows ready (writable entry (by simp)) now

theorem call_segment (wal : FileWal) (call : WalCall) :
    (WalHandle.segment wal).call config call =
      (FileWal.call .segment config wal call).map .segment := by
  cases call <;> rfl

theorem call_frame (wal : FileWal) (call : WalCall) :
    (WalHandle.frame wal).call config call =
      (FileWal.call .frame config wal call).map .frame := by
  cases call <;> rfl

private theorem fileCall_grows
    {engine : FileEngine} {wal : FileWal} {call : WalCall}
    (ready : FileWal.Ready engine config wal)
    (admissible : FileWal.Admissible engine config call) :
    ∃ wal', FileWal.call engine config wal call = .ok wal' ∧
      FileWal.Grows engine config wal wal' call.entries := by
  cases call with
  | writeOperation key value now => exact fileWrite_grows ready admissible now
  | writeDelete key now => exact fileWrite_grows ready admissible now
  | batchWriteOperations items now => exact fileBatch_grows ready admissible

private theorem indexedCall_grows
    {wal : IndexedWal} {call : WalCall} (ready : IndexedWal.Ready config wal)
    (admissible : Admissible config .indexed call) :
    ∃ wal', (WalHandle.indexed wal).call config call = .ok (.indexed wal') ∧
      IndexedWal.Grows config wal wal' call.entries := by
  cases call with
  | writeOperation key value now =>
      obtain ⟨wal', write, grows⟩ := IndexedWal.writeEntry_grows ready
        (admissible (.put key value now) (by simp [WalCall.entries])) now
      exact ⟨wal', congrArg (Except.map _) write, grows⟩
  | writeDelete key now =>
      obtain ⟨wal', write, grows⟩ := IndexedWal.writeEntry_grows ready
        (admissible (.delete key now) (by simp [WalCall.entries])) now
      exact ⟨wal', congrArg (Except.map _) write, grows⟩
  | batchWriteOperations items now =>
      obtain ⟨wal', write, grows⟩ := indexedBatch_grows ready admissible
      exact ⟨wal', congrArg (Except.map _) write, grows⟩

theorem call_grows
    {call : WalCall} (ready : handle.Ready config)
    (admissible : Admissible config handle.disk.engine call) :
    ∃ handle', handle.call config call = .ok handle' ∧
      Grows config handle handle' call.entries := by
  cases handle with
  | segment wal =>
      obtain ⟨wal', write, grows⟩ :=
        fileCall_grows ready (Admissible.segment admissible)
      refine ⟨.segment wal', ?_, rfl, grows.ready, grows.recovered,
        grows.kept⟩
      rw [call_segment, write]
      rfl
  | frame wal =>
      obtain ⟨wal', write, grows⟩ :=
        fileCall_grows ready (Admissible.frame admissible)
      refine ⟨.frame wal', ?_, rfl, grows.ready, grows.recovered, grows.kept⟩
      rw [call_frame, write]
      rfl
  | indexed wal =>
      obtain ⟨wal', write, grows⟩ := indexedCall_grows ready admissible
      exact ⟨.indexed wal', write, rfl, grows.ready, grows.recovered,
        grows.kept⟩

theorem runCalls_grows
    {calls : List WalCall} (ready : handle.Ready config)
    (admissible : ∀ call ∈ calls, Admissible config handle.disk.engine call) :
    ∃ handle', handle.runCalls config calls = .ok handle' ∧
      Grows config handle handle' (calls.flatMap WalCall.entries) := by
  induction calls generalizing handle with
  | nil =>
      exact ⟨handle, rfl, rfl, ready, (List.append_nil _).symm,
        WalDisk.Kept.refl _⟩
  | cons call calls inductionHypothesis =>
      obtain ⟨middle, first, front⟩ :=
        call_grows ready (admissible call (by simp))
      obtain ⟨last, rest, back⟩ := inductionHypothesis front.ready (by
        intro other member
        rw [front.engine]
        exact admissible other (by simp [member]))
      refine ⟨last, ?_, back.engine.trans front.engine, back.ready, ?_,
        front.kept.trans back.kept⟩
      · rw [runCalls, List.foldlM_cons, first]
        exact rest
      · rw [back.recovered, front.recovered, List.append_assoc]
        rfl

/-- Opening a directory keeps its entries and its records. -/
theorem openWal_grows
    {disk : WalDisk} (onDisk : disk.OnDisk config) (now : UInt64) :
    ∃ handle, disk.openWal config now = .ok handle ∧
      handle.disk.engine = disk.engine ∧ handle.Ready config ∧
      handle.disk.recovered config = disk.recovered config ∧
      disk.Kept handle.disk := by
  cases disk with
  | segment dir =>
      have opens : FileWal.Opens .segment config dir _ :=
        FileWal.initializeWal_opens onDisk now
      exact ⟨_, rfl, rfl, opens.ready, opens.recovered, opens.kept⟩
  | frame dir =>
      have opens : FileWal.Opens .frame config dir _ :=
        FileWal.initializeWal_opens onDisk now
      exact ⟨_, rfl, rfl, opens.ready, opens.recovered, opens.kept⟩
  | indexed disk =>
      obtain ⟨wal, opened, opens⟩ :=
        IndexedWal.initializeWal_opens onDisk now
      exact ⟨.indexed wal, by simp only [WalDisk.openWal, opened]; rfl, rfl,
        opens.ready, opens.recovered, opens.kept⟩

end

/-- Every sequence of admissible calls is acknowledged, and a fresh manager
reads exactly the entries of these calls. -/
theorem acknowledged_calls_are_recovered
    (config : WalConfig) (engine : WalEngine) (start : UInt64)
    (calls : List WalCall)
    (admissible : ∀ call ∈ calls, Admissible config engine call) :
    ∃ opened handle, (WalDisk.empty engine).openWal config start =
        .ok opened ∧
      opened.runCalls config calls = .ok handle ∧
      handle.disk.readEntriesForRecovery config =
        .ok (sortByTimestamp (calls.flatMap WalCall.entries)) := by
  obtain ⟨opened, openedOk, sameEngine, ready, empty, -⟩ :=
    openWal_grows (WalDisk.empty_onDisk config engine) start
  rw [WalDisk.empty_engine] at sameEngine
  rw [WalDisk.empty_recovered] at empty
  rw [← sameEngine] at admissible
  obtain ⟨handle, ran, grows⟩ := runCalls_grows ready admissible
  refine ⟨opened, handle, openedOk, ran, ?_⟩
  rw [WalDisk.readEntriesForRecovery_onDisk grows.ready.onDisk,
    grows.recovered, empty, List.nil_append]

/-- The smallest log configuration that passes validation. -/
def smallConfig : WalConfig :=
  { segmentSize := 1024
    framePageSize := 4096
    indexedFrameCount := 64
    syncMode := .fsync
    retentionPeriod := 3600
    retentionAfterFlush := 60
    maxSegments := 10 }

theorem acknowledged_put_is_recovered :
    ∃ opened handle,
      (WalDisk.empty .segment).openWal smallConfig 1 = .ok opened ∧
      opened.runCalls smallConfig
        [.writeOperation "k" (.bool true) 2] = .ok handle ∧
      handle.disk.readEntriesForRecovery smallConfig =
        .ok (sortByTimestamp [.put "k" (.bool true) 2]) := by
  refine acknowledged_calls_are_recovered smallConfig .segment 1
    [.writeOperation "k" (.bool true) 2] ?_
  intro call member
  rw [List.mem_singleton] at member
  subst member
  intro entry written
  rw [WalCall.entries, List.mem_singleton] at written
  subst written
  exact ⟨by decide, by decide, rfl⟩

/-- A single entry that fits no segment is acknowledged after a rotation and
written nowhere. -/
theorem oversized_entry_is_dropped
    {engine : FileEngine} {config : WalConfig} {wal : FileWal}
    {entry : WALEntry} (ready : FileWal.Ready engine config wal)
    (oversized : config.segmentSize <
      engine.headerSize + (entry.encode.length + 4)) (now : UInt64) :
    ∃ wal', FileWal.writeEntry engine config wal entry now = .ok wal' ∧
      FileWal.Grows engine config wal wal' [] := by
  have rotation := FileWal.rotateSegment_grows ready now
  obtain ⟨older, last, own, layout⟩ := ready
  obtain ⟨header, current⟩ := layout.current
  have long := layout.clean.headerSize_le
  have tooLong : config.segmentSize <
      last.content.length + (entry.encode.length + 4) := by omega
  have full := FileWal.segmentWriteEntry_full layout tooLong header
  have rotated := FileWal.rotateSegment_layout layout current now
  obtain ⟨freshHeader, freshCurrent⟩ := rotated.current
  have tooLongAgain : config.segmentSize <
      (FileWal.freshFile engine config wal.counter now).content.length +
        (entry.encode.length + 4) := by
    simpa [FileWal.freshFile] using oversized
  have fullAgain :=
    FileWal.segmentWriteEntry_full rotated tooLongAgain freshHeader
  refine ⟨FileWal.rotateSegment engine config wal now, ?_, rotation⟩
  simp only [FileWal.writeEntry, current, full, freshCurrent, fullAgain]
  rw [← freshCurrent]

/-- A put of one kilobyte into segments of one kilobyte. -/
theorem oversized_put_is_lost :
    ∃ opened handle,
      (WalDisk.empty .segment).openWal smallConfig 1 = .ok opened ∧
      opened.call smallConfig
        (.writeOperation "k" (.bytes (List.replicate 1024 0)) 2) =
          .ok handle ∧
      handle.disk.readEntriesForRecovery smallConfig = .ok [] := by
  have opens : FileWal.Opens .segment smallConfig [] _ :=
    FileWal.initializeWal_opens FileWal.onDisk_nil 1
  have oversized : smallConfig.segmentSize <
      FileEngine.segment.headerSize +
        ((WALEntry.put "k" (.bytes (List.replicate 1024 0)) 2).encode.length +
          4) := by
    simp only [smallConfig, FileEngine.headerSize, WALEntry.encode,
      Value.encode, encodeByteVec, List.length_append, List.length_replicate]
    omega
  obtain ⟨wal, written, grows⟩ :=
    oversized_entry_is_dropped opens.ready oversized 2
  refine ⟨_, .segment wal, rfl, ?_, ?_⟩
  · simp only [call, writeOperation, FileWal.writeOperation, written]
    rfl
  have ready : (WalHandle.segment wal).Ready smallConfig := grows.ready
  have nothing :
      (WalHandle.segment wal).disk.recovered smallConfig = [] := by
    change FileWal.recovered .segment smallConfig wal.dir = []
    rw [grows.recovered, opens.recovered]
    rfl
  rw [WalDisk.readEntriesForRecovery_onDisk ready.onDisk, nothing]
  rfl

end WalHandle

end F4kvsLsm
