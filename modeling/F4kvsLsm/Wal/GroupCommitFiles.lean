import F4kvsLsm.Wal.FileWalWrites
import F4kvsLsm.Wal.GroupCommit

/-!
# The files under group commit

Whatever the order of the steps, the record bytes of the directory are those
of the log, the record bytes that a power loss leaves are those of a beginning
of it, and all but the open file are synced.  Two rotations that race find the
same counter; the second one opens the file of the first again and keeps what
is in it.
-/

namespace F4kvsLsm

open ByteCodec FileWal

/-- The record bytes of a directory, without the headers. -/
def payload (dir : List WalFile) : Bytes :=
  dir.flatMap fun file => file.content.drop 17

@[simp]
theorem payload_append (front back : List WalFile) :
    payload (front ++ back) = payload front ++ payload back := by
  simp [payload]

@[simp]
theorem payload_singleton (file : WalFile) :
    payload [file] = file.content.drop 17 := by
  simp [payload]

@[simp]
theorem powerLoss_append (synced : Nat → Bytes) (front back : List WalFile) :
    powerLoss synced (front ++ back) =
      powerLoss synced front ++ powerLoss synced back := by
  simp [powerLoss]

theorem dataToWrite_append (front back : List PendingEntry) :
    dataToWrite (front ++ back) = dataToWrite front ++ dataToWrite back := by
  simp [dataToWrite, entriesOf, records_append]

@[simp]
theorem dataToWrite_nil : dataToWrite [] = [] := rfl

theorem fileContent_append_singleton
    {older : List WalFile} {last : WalFile}
    (ascending : Ascending (older ++ [last])) :
    fileContent (older ++ [last]) last.id = last.content := by
  rw [fileContent, find?_append_singleton ascending]

theorem powerLoss_other
    {older : List WalFile} {id : Nat} (below : ∀ file ∈ older, file.id < id)
    (synced : Nat → Bytes) (content : Bytes) :
    powerLoss (fun other => if other = id then content else synced other)
      older = powerLoss synced older := by
  apply List.map_congr_left
  intro file member
  have different : file.id ≠ id := Nat.ne_of_lt (below file member)
  simp [different]

theorem newSegment_existing
    {engine : FileEngine} {config : WalConfig} {dir : List WalFile} {id : Nat}
    (present : dir.any (fun file => file.id = id) = true) (now : UInt64) :
    newSegment engine config dir id now =
      (writeHeader engine dir ⟨id, newHeader config now⟩,
        ⟨id, newHeader config now⟩) := by
  simp only [newSegment, present, if_true]

namespace LogFiles

/-- The open file is the last one.  `base` are the record bytes that the
directory was opened with, `kept` those of them that are on durable
storage. -/
structure Layout (base kept : Bytes) (files : LogFiles)
    (older : List WalFile) (last : WalFile) : Prop where
  dir : files.wal.dir = older ++ [last]
  ascending : Ascending (older ++ [last])
  current : ∃ header, files.wal.current = some ⟨last.id, header⟩
  counter : last.id ≤ files.wal.counter
  headed : 17 ≤ last.content.length
  logged : payload older ++ last.content.drop 17 =
    base ++ dataToWrite files.log
  closed : payload (powerLoss files.synced older) ++ last.content.drop 17 =
    kept ++ dataToWrite files.log
  survives : payload (powerLoss files.synced (older ++ [last])) =
    kept ++ dataToWrite files.durable
  durable : files.durable <+: files.log

/-- The files in some layout. -/
def Sound (base kept : Bytes) (files : LogFiles) : Prop :=
  ∃ older last, Layout base kept files older last

section

variable {base kept : Bytes} {files : LogFiles}
variable {older : List WalFile} {last : WalFile}

theorem Layout.below (layout : Layout base kept files older last) :
    ∀ file ∈ older, file.id < last.id :=
  ascending_lt_last layout.ascending

/-- The open file changes in place and gains the records of `added`. -/
theorem Layout.change
    (layout : Layout base kept files older last)
    (change : Bytes → Bytes) (header : WALSegmentHeader)
    (added : List PendingEntry)
    (headed : 17 ≤ (change last.content).length)
    (grown : (change last.content).drop 17 =
      last.content.drop 17 ++ dataToWrite added) :
    Layout base kept
      { files with
        wal := { files.wal with
          dir := updateFile files.wal.dir last.id change
          current := some ⟨last.id, header⟩ }
        log := files.log ++ added }
      older { last with content := change last.content } := by
  constructor
  · simp only [layout.dir]
    exact updateFile_append_singleton layout.ascending change
  · exact ascending_replace_last layout.ascending rfl
  · exact ⟨header, rfl⟩
  · exact layout.counter
  · exact headed
  · simp only [grown, dataToWrite_append]
    rw [← List.append_assoc, layout.logged, List.append_assoc]
  · simp only [grown, dataToWrite_append]
    rw [← List.append_assoc, layout.closed, List.append_assoc]
  · have survives := layout.survives
    simp only [powerLoss_append] at survives ⊢
    exact survives
  · exact layout.durable.trans (List.prefix_append _ _)

theorem Layout.syncOpen (layout : Layout base kept files older last) :
    Layout base kept files.syncOpen older last := by
  rcases layout.current with ⟨header, current⟩
  have content : fileContent files.wal.dir last.id = last.content := by
    rw [layout.dir]
    exact fileContent_append_singleton layout.ascending
  have same : powerLoss (fun other =>
      if other = last.id then last.content else files.synced other) older =
        powerLoss files.synced older :=
    powerLoss_other layout.below files.synced last.content
  have state : files.syncOpen =
      { files with
        synced := fun other =>
          if other = last.id then last.content else files.synced other
        durable := files.log } := by
    simp only [LogFiles.syncOpen, current, content]
  rw [state]
  constructor
  · exact layout.dir
  · exact layout.ascending
  · exact ⟨header, current⟩
  · exact layout.counter
  · exact layout.headed
  · exact layout.logged
  · simp only [same]
    exact layout.closed
  · simp only [powerLoss_append, payload_append, same]
    rw [← layout.closed]
    simp [powerLoss]
  · exact List.prefix_rfl

@[simp]
theorem syncOpen_wal (files : LogFiles) : files.syncOpen.wal = files.wal := by
  unfold LogFiles.syncOpen
  split
  · rfl
  · rfl

theorem Layout.syncOpen_durable
    (layout : Layout base kept files older last) :
    files.syncOpen.durable = files.syncOpen.log := by
  rcases layout.current with ⟨header, current⟩
  simp [LogFiles.syncOpen, current]

theorem Layout.syncAfterFlush
    (config : CommitConfig) (layout : Layout base kept files older last) :
    Layout base kept (files.syncAfterFlush config) older last := by
  unfold LogFiles.syncAfterFlush
  split
  · exact layout.syncOpen
  · exact layout

theorem overwrite_length_le
    (header : WALSegmentHeader) (content : Bytes) :
    17 ≤ (overwrite (FileEngine.segment.encodeHeader header)
      content).length := by
  have size := FileEngine.encodeHeader_length .segment header
  simp only [FileEngine.headerSize] at size
  simp [overwrite, size]

theorem overwrite_drop_segment
    (header : WALSegmentHeader) (content : Bytes) :
    (overwrite (FileEngine.segment.encodeHeader header) content).drop 17 =
      content.drop 17 :=
  @FileEngine.overwrite_drop .segment _ content
    (FileEngine.encodeHeader_length .segment header)

/-- The header of the open file is written again. -/
theorem Layout.rewrite
    (layout : Layout base kept files older last)
    (header header' : WALSegmentHeader) :
    Layout base kept
      { files with
        wal := { files.wal with
          dir := updateFile files.wal.dir last.id
            (overwrite (FileEngine.segment.encodeHeader header))
          current := some ⟨last.id, header'⟩ } }
      older
      { last with
        content := overwrite (FileEngine.segment.encodeHeader header)
          last.content } := by
  have rewritten := layout.change
    (overwrite (FileEngine.segment.encodeHeader header)) header' []
    (overwrite_length_le header last.content)
    (by simp [overwrite_drop_segment])
  simpa using rewritten

theorem flush_of_current
    {header : WALSegmentHeader}
    (current : files.wal.current = some ⟨last.id, header⟩) :
    FileWal.flush .segment files.wal =
      { files.wal with
        dir := updateFile files.wal.dir last.id
          (overwrite (FileEngine.segment.encodeHeader header))
        current := some ⟨last.id, header⟩ } := by
  simp only [FileWal.flush, current, writeHeader]

theorem Layout.flush
    (layout : Layout base kept files older last) {header : WALSegmentHeader}
    (current : files.wal.current = some ⟨last.id, header⟩) :
    Layout base kept { files with wal := FileWal.flush .segment files.wal }
      older (closedFile .segment header last) := by
  rw [flush_of_current current]
  exact layout.rewrite header header

theorem Sound.payload_eq (sound : Sound base kept files) :
    payload files.wal.dir = base ++ dataToWrite files.log := by
  rcases sound with ⟨older, last, layout⟩
  rw [layout.dir, payload_append, payload_singleton, layout.logged]

theorem Sound.survives_eq (sound : Sound base kept files) :
    payload (powerLoss files.synced files.wal.dir) =
      kept ++ dataToWrite files.durable := by
  rcases sound with ⟨older, last, layout⟩
  rw [layout.dir, layout.survives]

/-! ### The steps -/

theorem Sound.syncOpen (sound : Sound base kept files) :
    Sound base kept files.syncOpen := by
  rcases sound with ⟨older, last, layout⟩
  exact ⟨older, last, layout.syncOpen⟩

theorem Sound.flushOpen (config : CommitConfig)
    (sound : Sound base kept files) :
    Sound base kept (files.flushOpen config) := by
  rcases sound with ⟨older, last, layout⟩
  rcases layout.current with ⟨header, current⟩
  exact ⟨_, _, (layout.flush current).syncAfterFlush config⟩

theorem Sound.append (config : CommitConfig) (list : List PendingEntry)
    (sound : Sound base kept files) :
    Sound base kept (files.append config list) := by
  rcases sound with ⟨older, last, layout⟩
  rcases layout.current with ⟨header, current⟩
  have long := layout.headed
  have appended := layout.change (· ++ dataToWrite list)
    { header with entryCount := header.entryCount + (entriesOf list).length }
    list (by simp only [List.length_append]; omega)
    (List.drop_append_of_le_length long)
  have rewritten := appended.rewrite
    { header with entryCount := header.entryCount + (entriesOf list).length }
    { header with entryCount := header.entryCount + (entriesOf list).length }
  have state : files.append config list =
      LogFiles.syncAfterFlush config { files with
        wal := appendBatch .segment files.wal ⟨last.id, header⟩
          (entriesOf list)
        log := files.log ++ list } := by
    simp only [LogFiles.append, current]
  rw [state]
  exact ⟨_, _, rewritten.syncAfterFlush config⟩

theorem Sound.writeEntry
    {config : CommitConfig} {record : PendingEntry} {files' : LogFiles}
    (sound : Sound base kept files)
    (written : files.writeEntry config record = some files') :
    Sound base kept files' := by
  rcases sound with ⟨older, last, layout⟩
  rcases layout.current with ⟨header, current⟩
  have long := layout.headed
  simp only [LogFiles.writeEntry, current, segmentWriteEntry] at written
  split at written
  · rename_i dir segment found
    split at found
    · simp at found
    · simp only [Prod.mk.injEq, and_true] at found
      rcases found with ⟨rfl, rfl⟩
      simp only [Option.some.injEq] at written
      rw [← written]
      have appended := layout.change (· ++ frame record.entry.encode)
        { header with entryCount := header.entryCount + 1 } [record]
        (by simp only [List.length_append]; omega)
        (by
          rw [List.drop_append_of_le_length long]
          simp [dataToWrite, entriesOf, records_singleton])
      exact ⟨_, _, appended.syncAfterFlush config⟩
  · simp at written

/-- The list of closed segments does not matter. -/
theorem Layout.congr
    {wal : FileWal} (layout : Layout base kept files older last)
    (dir : wal.dir = files.wal.dir)
    (current : ∃ header, wal.current = some ⟨last.id, header⟩)
    (counter : wal.counter = files.wal.counter) :
    Layout base kept { files with wal := wal } older last := by
  constructor
  · exact dir.trans layout.dir
  · exact layout.ascending
  · exact current
  · exact layout.counter.trans (Nat.le_of_eq counter.symm)
  · exact layout.headed
  · exact layout.logged
  · exact layout.closed
  · exact layout.survives
  · exact layout.durable

/-- A new file behind synced ones. -/
theorem Layout.create
    (layout : Layout base kept files older last)
    (wal : FileWal) (fresh : WalFile)
    (above : last.id < fresh.id) (bare : fresh.content.length = 17)
    (dir : wal.dir = files.wal.dir ++ [fresh])
    (current : ∃ header, wal.current = some ⟨fresh.id, header⟩)
    (counter : wal.counter = fresh.id)
    (durable : files.durable = files.log) :
    Layout base kept
      (LogFiles.syncOpen { files with wal := wal }) (older ++ [last])
      fresh := by
  have empty : fresh.content.drop 17 = [] :=
    List.drop_eq_nil_of_le (Nat.le_of_eq bare)
  have ascending : Ascending (older ++ [last] ++ [fresh]) := by
    apply ascending_append_singleton layout.ascending
    intro file member
    rcases List.mem_append.mp member with old | new
    · exact (layout.below file old).trans above
    · rw [List.mem_singleton.mp new]
      exact above
  have below : ∀ file ∈ older ++ [last], file.id < fresh.id := by
    intro file member
    exact (List.pairwise_append.mp ascending).2.2 file member fresh
      (by simp)
  rcases current with ⟨header, current⟩
  have content : fileContent wal.dir fresh.id = fresh.content := by
    rw [dir, layout.dir]
    exact fileContent_append_singleton ascending
  have state : LogFiles.syncOpen { files with wal := wal } =
      { files with
        wal := wal
        synced := fun other =>
          if other = fresh.id then fresh.content else files.synced other
        durable := files.log } := by
    simp only [LogFiles.syncOpen, current, content]
  have same := powerLoss_other below files.synced fresh.content
  have lastKept : payload (powerLoss files.synced (older ++ [last])) =
      kept ++ dataToWrite files.log := by
    rw [layout.survives, durable]
  rw [state]
  constructor
  · rw [dir, layout.dir]
  · exact ascending
  · exact ⟨header, current⟩
  · exact Nat.le_of_eq counter.symm
  · exact Nat.le_of_eq bare.symm
  · simp only [payload_append, payload_singleton, empty, List.append_nil]
    exact layout.logged
  · simp only [same, lastKept, empty, List.append_nil]
  · rw [powerLoss_append, payload_append, same, lastKept]
    simp [powerLoss, empty]
  · exact List.prefix_rfl

theorem Sound.install (config : CommitConfig) (now : UInt64)
    (sound : Sound base kept files) :
    Sound base kept (files.install config now) := by
  rcases sound with ⟨older, last, layout⟩
  rcases layout.current with ⟨header, current⟩
  have flushed := flush_of_current current
  have rewritten := layout.flush current
  have closed := rewritten.syncOpen
  have closedDir : (FileWal.flush .segment files.wal).dir =
      older ++ [closedFile .segment header last] := rewritten.dir
  let installed : FileWal :=
    { rotateSegment .segment config.toWalConfig files.wal now with
      counter := files.wal.counter }
  have rotatedDir : installed.dir = (newSegment .segment config.toWalConfig
        (FileWal.flush .segment files.wal).dir files.wal.counter now).1 := by
    simp only [installed, rotateSegment, current, flushed, writeHeader]
  have rotatedCurrent : installed.current =
        some ⟨files.wal.counter, newHeader config.toWalConfig now⟩ := by
    simp only [installed, rotateSegment, newSegment]
  have counter : installed.counter = files.wal.counter := rfl
  have sameDir : (LogFiles.syncOpen
      { files with wal := FileWal.flush .segment files.wal }).wal.dir =
        older ++ [closedFile .segment header last] := by
    rw [syncOpen_wal, closedDir]
  rcases Nat.eq_or_lt_of_le layout.counter with reopened | above
  · -- an earlier rotation has not raised the counter yet
    have again := closed.rewrite (newHeader config.toWalConfig now)
      (newHeader config.toWalConfig now)
    rw [newSegment_existing (by simp [closedDir, closedFile, reopened]),
      closedDir, ← reopened] at rotatedDir
    rw [← reopened] at rotatedCurrent
    rw [sameDir] at again
    have reopenedLayout := again.congr rotatedDir ⟨_, rotatedCurrent⟩
      (by rw [counter, syncOpen_wal, flushed])
    exact ⟨_, _, reopenedLayout.syncOpen⟩
  · have highest : ∀ file ∈ (FileWal.flush .segment files.wal).dir,
        file.id < files.wal.counter := by
      intro file member
      rw [closedDir] at member
      rcases List.mem_append.mp member with old | new
      · exact (layout.below file old).trans above
      · rw [List.mem_singleton.mp new]
        exact above
    have ascending : Ascending (FileWal.flush .segment files.wal).dir := by
      rw [closedDir]
      exact closed.ascending
    have bare := FileEngine.encodeHeader_length .segment
      (newHeader config.toWalConfig now)
    rw [newSegment_eq ascending highest] at rotatedDir
    have created := closed.create installed
      (freshFile .segment config.toWalConfig files.wal.counter now)
      above bare
      (by rw [rotatedDir, syncOpen_wal])
      ⟨_, rotatedCurrent⟩ counter rewritten.syncOpen_durable
    exact ⟨_, _, created⟩

theorem Sound.raiseCounter (sound : Sound base kept files) :
    Sound base kept files.raiseCounter := by
  rcases sound with ⟨older, last, layout⟩
  exact ⟨older, last, layout.dir, layout.ascending, layout.current,
    Nat.le_succ_of_le layout.counter, layout.headed, layout.logged,
    layout.closed, layout.survives, layout.durable⟩

end

/-! ### Opening -/

section

variable {dir : List WalFile} {synced : Nat → Bytes} {now : UInt64}

/-- What is known of the files of earlier sessions: of their record bytes, a
beginning is on durable storage. -/
def SyncedPart (synced : Nat → Bytes) (dir : List WalFile) : Prop :=
  ∀ file ∈ dir, (synced file.id).drop 17 <+: file.content.drop 17

/-- Nothing changes for the files that were there. -/
theorem powerLoss_opened
    {part : List WalFile} (within : ∀ file ∈ part, file ∈ dir)
    (fresh : Nat → Bytes) :
    powerLoss (fun id => if dir.any (fun file => file.id = id) then synced id
      else fresh id) part = powerLoss synced part := by
  apply List.map_congr_left
  intro file member
  have present : dir.any (fun other => other.id = file.id) = true := by
    rw [List.any_eq_true]
    exact ⟨file, within file member, by simp⟩
  simp only [present, if_true]

theorem opened_created (config : CommitConfig)
    (onDisk : OnDisk .segment dir)
    (created : initializeWal .segment config.toWalConfig (FileWal.new dir)
      now = rotateSegment .segment config.toWalConfig
        { FileWal.new dir with counter := scanExistingSegments dir } now) :
    Sound (payload dir) (payload (powerLoss synced dir))
      (opened config dir synced now) := by
  have above := scanExistingSegments_above dir
  let fresh := freshFile .segment config.toWalConfig
    (scanExistingSegments dir) now
  have bare : fresh.content.length = 17 :=
    FileEngine.encodeHeader_length .segment _
  have empty : fresh.content.drop 17 = [] :=
    List.drop_eq_nil_of_le (Nat.le_of_eq bare)
  have ascending : Ascending (dir ++ [fresh]) :=
    ascending_append_singleton onDisk.ascending above
  have rotated : rotateSegment .segment config.toWalConfig
      { FileWal.new dir with counter := scanExistingSegments dir } now =
        ⟨dir ++ [fresh], some ⟨fresh.id, newHeader config.toWalConfig now⟩,
          [], scanExistingSegments dir + 1⟩ := by
    simp only [rotateSegment, FileWal.new,
      newSegment_eq onDisk.ascending above]
    rfl
  have absent : dir.any (fun file => file.id = fresh.id) = false := by
    rw [List.any_eq_false]
    intro file member
    have different : file.id ≠ fresh.id := Nat.ne_of_lt (above file member)
    simpa using different
  have known : ∀ file ∈ dir, file ∈ dir := fun _ member => member
  refine ⟨dir, fresh, ?_⟩
  simp only [opened, created, rotated]
  constructor
  · rfl
  · exact ascending
  · exact ⟨_, rfl⟩
  · exact Nat.le_succ _
  · exact Nat.le_of_eq bare.symm
  · simp [empty]
  · simp only [powerLoss_opened known, empty, dataToWrite_nil]
  · rw [powerLoss_append, payload_append, powerLoss_opened known]
    have content := fileContent_append_singleton ascending
    simp only [powerLoss, List.map_cons, List.map_nil, payload_singleton,
      absent, content]
    simp [empty]
  · exact List.prefix_rfl

theorem opened_reused (config : CommitConfig) {m : FileWal}
    (onDisk : OnDisk .segment dir) (part : SyncedPart synced dir)
    (reused : tryReuseLastEmptySegment .segment config.toWalConfig
      { FileWal.new dir with counter := scanExistingSegments dir } now =
        some m) (opens : initializeWal .segment config.toWalConfig
          (FileWal.new dir) now = m) :
    Sound (payload dir) (payload (powerLoss synced dir))
      (opened config dir synced now) := by
  rcases List.eq_nil_or_concat dir with empty | ⟨older, last, split⟩
  · subst empty
    simp [tryReuseLastEmptySegment, scanExistingSegments] at reused
  · rw [List.concat_eq_append] at split
    subst split
    have counter := scanExistingSegments_last onDisk.ascending
    simp only [tryReuseLastEmptySegment, FileWal.new, counter,
      Nat.add_sub_cancel] at reused
    rw [fileLen_append_singleton onDisk.ascending] at reused
    split at reused
    · cases reused
    · split at reused
      · rename_i found
        have bare : last.content.length = 17 := found.2
        have empty : last.content.drop 17 = [] :=
          List.drop_eq_nil_of_le (Nat.le_of_eq bare)
        have syncedEmpty : (synced last.id).drop 17 = [] := by
          have begins := part last (by simp)
          rw [empty] at begins
          exact List.prefix_nil.mp begins
        have state := Option.some.inj reused
        rw [← state] at opens
        refine ⟨older, last, ?_⟩
        simp only [opened, opens]
        constructor
        · rfl
        · exact onDisk.ascending
        · exact ⟨_, rfl⟩
        · exact Nat.le_succ _
        · exact Nat.le_of_eq bare.symm
        · simp
        · have known : ∀ file ∈ older, file ∈ older ++ [last] :=
            fun _ member => List.mem_append_left _ member
          rw [powerLoss_opened known, powerLoss_append, payload_append]
          simp [powerLoss, empty, syncedEmpty]
        · rw [powerLoss_opened fun _ member => member]
          simp
        · exact List.prefix_rfl
      · cases reused

theorem sound_opened (config : CommitConfig) (onDisk : OnDisk .segment dir)
    (part : SyncedPart synced dir) (now : UInt64) :
    Sound (payload dir) (payload (powerLoss synced dir))
      (opened config dir synced now) := by
  cases reuse : tryReuseLastEmptySegment .segment config.toWalConfig
      { FileWal.new dir with counter := scanExistingSegments dir } now with
  | none =>
      apply opened_created config onDisk
      simp only [initializeWal, FileWal.new] at reuse ⊢
      rw [reuse]
      rfl
  | some m =>
      apply opened_reused config onDisk part reuse
      simp only [initializeWal, FileWal.new] at reuse ⊢
      rw [reuse]
      rfl

end

end LogFiles

end F4kvsLsm
