import F4kvsLsm.Wal.CrashImages
import F4kvsLsm.Wal.Unlinked

/-!
# What a handle without its directory does

A call that does not fit the open file rotates, and what it writes is in the
directory from then on.  The indexed backend refuses every entry as long as
its segment has a frame left, and rotates when it has none.
-/

namespace F4kvsLsm

open ByteCodec

namespace FileWal

variable {engine : FileEngine} {config : WalConfig}

/-- The open file is all that the manager has. -/
def Unlinked (engine : FileEngine) (config : WalConfig) (m : FileWal) :
    Prop :=
  ∃ last own, Layout engine config m [] last own

section

variable {m : FileWal} {older : List WalFile} {last : WalFile}
variable {own : List WALEntry}

theorem Unlinked.ready (unlinked : Unlinked engine config m) :
    Ready engine config m := by
  obtain ⟨last, own, layout⟩ := unlinked
  exact ⟨[], last, own, layout⟩

theorem Ready.unlink (ready : Ready engine config m) :
    Unlinked engine config m.unlink := by
  obtain ⟨older, last, own, layout⟩ := ready
  obtain ⟨header, current⟩ := layout.current
  have others : ∀ file ∈ older, file.id ≠ last.id := by
    intro file member
    exact Nat.ne_of_lt (ascending_lt_last layout.ascending file member)
  have kept : m.unlink.dir = [last] := by
    simp only [FileWal.unlink, current, layout.dir, List.filter_append,
      Option.map_some, Option.some.injEq]
    have none : older.filter (fun file => file.id = last.id) = [] := by
      rw [List.filter_eq_nil_iff]
      intro file member
      simpa using others file member
    rw [none, List.nil_append]
    simp
  refine ⟨last, own, kept, List.pairwise_singleton _ _, by simp,
    ⟨header, current⟩, layout.counter, layout.tracked, layout.clean⟩

/-! ### A file in front of the directory -/

/-- The manager with one more file. -/
def behind (m : FileWal) (file : WalFile) : FileWal :=
  { m with dir := file :: m.dir }

theorem updateFile_cons_other
    {file : WalFile} {id : Nat} (other : file.id ≠ id) (dir : List WalFile)
    (change : Bytes → Bytes) :
    updateFile (file :: dir) id change = file :: updateFile dir id change := by
  rw [updateFile, List.map_cons, if_neg other]
  rfl

theorem fileLen_cons_other
    {file : WalFile} {id : Nat} (other : file.id ≠ id)
    (dir : List WalFile) : fileLen (file :: dir) id = fileLen dir id := by
  rw [fileLen, fileLen, List.find?_cons_of_neg (by simpa using other)]

theorem newSegment_cons
    {file : WalFile} {id : Nat} (other : file.id ≠ id) (dir : List WalFile)
    (now : UInt64) :
    newSegment engine config (file :: dir) id now =
      (file :: (newSegment engine config dir id now).1,
        (newSegment engine config dir id now).2) := by
  have same : (file :: dir).any (fun file => file.id = id) =
      dir.any (fun file => file.id = id) := by
    rw [List.any_cons, decide_eq_false other, Bool.false_or]
  simp only [newSegment, writeHeader, same]
  split
  · rw [updateFile_cons_other other]
  · rw [List.cons_append, updateFile_cons_other other]

/-- `m` is the open manager `n` and a closed file with a lower number. -/
structure Behind (engine : FileEngine) (config : WalConfig) (file : WalFile)
    (m n : FileWal) : Prop where
  eq : m = n.behind file
  ready : Ready engine config n
  above : ∀ other ∈ n.dir, file.id < other.id

variable {n : FileWal} {file : WalFile}

theorem Behind.current
    (behind : Behind engine config file m n) :
    ∃ segment, n.current = some segment ∧ file.id < segment.id ∧
      segment.id < n.counter := by
  obtain ⟨older, last, own, layout⟩ := behind.ready
  obtain ⟨header, current⟩ := layout.current
  refine ⟨_, current, ?_, ?_⟩
  · exact behind.above last (by simp [layout.dir])
  · rw [layout.counter]
    exact Nat.lt_succ_self _

theorem Behind.without
    (behind : Behind engine config file m n) : m.without file.id = n := by
  have kept : n.dir.filter (fun other => other.id ≠ file.id) = n.dir := by
    rw [List.filter_eq_self]
    intro other member
    simpa using (behind.above other member).ne'
  rw [behind.eq, FileWal.without, FileWal.behind, List.filter_cons_of_neg
    (by simp), kept]

theorem Behind.settle
    {before : FileWal} {header : WALSegmentHeader}
    (behind : Behind engine config file m n)
    (current : before.current = some ⟨file.id, header⟩) :
    settle before m = .linked n := by
  obtain ⟨segment, open', above, -⟩ := behind.current
  have other : m.current.map (·.id) ≠ some file.id := by
    rw [behind.eq, FileWal.behind, open']
    simpa using above.ne'
  simp only [FileWal.settle, current, if_neg other, behind.without]

/-- A manager behind a file is behind it after any step of its own that
leaves it open. -/
theorem Behind.of_ready
    {m' n' : FileWal} (eq : m' = n'.behind file)
    (whole : Ready engine config m') (ready : Ready engine config n') :
    Behind engine config file m' n' := by
  refine ⟨eq, ready, ?_⟩
  obtain ⟨older, last, own, layout⟩ := whole
  have ascending := layout.onDisk.ascending
  rw [eq, FileWal.behind] at ascending
  exact (List.pairwise_cons.mp ascending).1

theorem rotateSegment_behind
    {segment : OpenSegment} (current : n.current = some segment)
    (open' : file.id ≠ segment.id) (next : file.id ≠ n.counter)
    (now : UInt64) :
    rotateSegment engine config (n.behind file) now =
      (rotateSegment engine config n now).behind file := by
  simp only [rotateSegment, behind, current, writeHeader,
    updateFile_cons_other open', newSegment_cons next]

theorem Behind.rotate
    (behind : Behind engine config file m n) (whole : Ready engine config m)
    (now : UInt64) :
    Behind engine config file (rotateSegment engine config m now)
      (rotateSegment engine config n now) ∧
      recovered engine config (rotateSegment engine config n now).dir =
        recovered engine config n.dir := by
  obtain ⟨segment, current, above, below⟩ := behind.current
  have rotated := rotateSegment_grows behind.ready now
  have same := rotated.recovered
  rw [List.append_nil] at same
  refine ⟨.of_ready ?_ (rotateSegment_grows whole now).ready rotated.ready,
    same⟩
  rw [behind.eq]
  exact rotateSegment_behind current above.ne
    (above.trans below).ne now

/-- The first rotation leaves the open file behind. -/
theorem Layout.rotate
    (layout : Layout engine config m [] last own) (now : UInt64) :
    ∃ closed n, closed.id = last.id ∧
      Behind engine config closed (rotateSegment engine config m now) n ∧
      Layout engine config n [] (freshFile engine config m.counter now)
        [] := by
  obtain ⟨header, current⟩ := layout.current
  have rotated := rotateSegment_layout layout current now
  let n : FileWal :=
    { rotateSegment engine config m now with
      dir := [freshFile engine config m.counter now] }
  have fresh : Layout engine config n []
      (freshFile engine config m.counter now) [] :=
    ⟨rfl, List.pairwise_singleton _ _, by simp, rotated.current,
      rotated.counter, rotated.tracked, rotated.clean⟩
  have eq : rotateSegment engine config m now =
      n.behind (closedFile engine header last) := by
    have dir := rotated.dir
    simp only [List.nil_append, List.singleton_append] at dir
    simp only [n, behind, ← dir]
  exact ⟨closedFile engine header last, n, rfl,
    .of_ready eq ⟨_, _, _, rotated⟩ ⟨_, _, _, fresh⟩, fresh⟩

theorem segmentWriteEntry_behind
    {segment : OpenSegment} (other : file.id ≠ segment.id)
    (dir : List WalFile) (entry : WALEntry) :
    segmentWriteEntry config (file :: dir) segment entry =
      (file :: (segmentWriteEntry config dir segment entry).1,
        (segmentWriteEntry config dir segment entry).2) := by
  simp only [segmentWriteEntry, fileLen_cons_other other]
  split
  · rfl
  · rw [updateFile_cons_other other]

theorem appendBatch_behind
    {segment : OpenSegment} (other : file.id ≠ segment.id)
    (entries : List WALEntry) :
    appendBatch engine (n.behind file) segment entries =
      (appendBatch engine n segment entries).behind file := by
  simp only [appendBatch, flush, behind, writeHeader,
    updateFile_cons_other other]

/-! ### Calls -/

/-- After a call of `m` the manager goes on in the directory, which holds
`entries`. -/
def Relinked (engine : FileEngine) (config : WalConfig) (m m' : FileWal)
    (entries : List WALEntry) : Prop :=
  ∃ n, settle m m' = .linked n ∧ Ready engine config n ∧
    recovered engine config n.dir = entries

/-- `m` has rotated away from file `id` and has not written since. -/
def Rotated (engine : FileEngine) (config : WalConfig) (id : Nat)
    (m : FileWal) : Prop :=
  Ready engine config m ∧
    ∃ closed n, closed.id = id ∧ Behind engine config closed m n ∧
      recovered engine config n.dir = []

theorem Layout.rotated
    (layout : Layout engine config m [] last own) (now : UInt64) :
    Rotated engine config last.id (rotateSegment engine config m now) := by
  obtain ⟨closed, n, sameId, behind, fresh⟩ := layout.rotate now
  have whole := rotateSegment_grows ⟨_, _, _, layout⟩ now
  exact ⟨whole.ready, closed, n, sameId, behind, fresh.recovered_eq⟩

theorem Rotated.rotate
    {id : Nat} (rotated : Rotated engine config id m) (now : UInt64) :
    Rotated engine config id (rotateSegment engine config m now) := by
  obtain ⟨whole, closed, n, sameId, behind, empty⟩ := rotated
  obtain ⟨after, same⟩ := behind.rotate whole now
  exact ⟨(rotateSegment_grows whole now).ready, closed, _, sameId, after,
    same.trans empty⟩

theorem Rotated.append
    {before : FileWal} {id : Nat} {header : WALSegmentHeader}
    (current : before.current = some ⟨id, header⟩)
    (rotated : Rotated engine config id m) {segment : OpenSegment}
    (open' : m.current = some segment) {entries : List WALEntry}
    (storable : ∀ entry ∈ entries,
      engine.Storable config.segmentSize entry) :
    Relinked engine config before (appendBatch engine m segment entries)
      entries := by
  obtain ⟨whole, closed, n, rfl, behind, empty⟩ := rotated
  obtain ⟨segment', opened, above, -⟩ := behind.current
  have sameOpen : m.current = n.current := by rw [behind.eq]; rfl
  rw [sameOpen, opened, Option.some.injEq] at open'
  subst open'
  have appended := appendBatch_grows behind.ready opened storable
  have eq : appendBatch engine m segment' entries =
      (appendBatch engine n segment' entries).behind closed := by
    rw [behind.eq]
    exact appendBatch_behind above.ne entries
  have after : Behind engine config closed
      (appendBatch engine m segment' entries) _ :=
    .of_ready eq
      (appendBatch_grows whole (sameOpen.trans opened) storable).ready
      appended.ready
  refine ⟨_, after.settle current, appended.ready, ?_⟩
  rw [appended.recovered, empty, List.nil_append]

theorem Layout.writeEntry_relinks
    {entry : WALEntry} (layout : Layout engine config m [] last own)
    (writable : Writable engine config entry)
    (full : config.segmentSize <
      last.content.length + (entry.encode.length + 4)) (now : UInt64) :
    ∃ m', writeEntry engine config m entry now = .ok m' ∧
      Relinked engine config m m' [entry] := by
  obtain ⟨header, current⟩ := layout.current
  have refused := segmentWriteEntry_full layout full header
  obtain ⟨closed, n, sameId, rotated, fresh⟩ := layout.rotate now
  obtain ⟨freshHeader, freshCurrent⟩ := fresh.current
  have room : (freshFile engine config m.counter now).content.length +
      (entry.encode.length + 4) ≤ config.segmentSize := by
    simpa [freshFile] using writable.room
  obtain ⟨dir, segment, accepted, grows⟩ :=
    segmentWriteEntry_fits fresh writable.storable room freshHeader
  obtain ⟨segment', opened, above, -⟩ := rotated.current
  rw [freshCurrent, Option.some.injEq] at opened
  subst opened
  have computed : writeEntry engine config m entry now =
      .ok (({ n with dir := dir, current := some segment } :
        FileWal).behind closed) := by
    simp only [writeEntry, current, refused, rotated.eq, behind,
      freshCurrent, segmentWriteEntry_behind above.ne, accepted]
  obtain ⟨written, call, whole⟩ :=
    writeEntry_grows ⟨_, _, _, layout⟩ writable now
  cases computed.symm.trans call
  have after : Behind engine config closed _ _ :=
    .of_ready rfl whole.ready grows.ready
  rw [← sameId] at current
  refine ⟨_, computed, _, after.settle current, grows.ready, ?_⟩
  rw [grows.recovered, fresh.recovered_eq]
  rfl

theorem Layout.writeEntry_stays
    {entry : WALEntry} (layout : Layout engine config m [] last own)
    (room : last.content.length + (entry.encode.length + 4) ≤
      config.segmentSize) (now : UInt64) :
    ∃ m', writeEntry engine config m entry now = .ok m' ∧
      settle m m' = .unlinked m' := by
  obtain ⟨header, current⟩ := layout.current
  have fits : ¬ fileLen m.dir last.id + (entry.encode.length + 4) >
      config.segmentSize := by
    rw [layout.fileLen_eq]
    omega
  refine ⟨{ m with
    dir := updateFile m.dir last.id (· ++ frame entry.encode)
    current := some ⟨last.id,
      { header with entryCount := header.entryCount + 1 }⟩ }, ?_, ?_⟩
  · simp only [writeEntry, current, segmentWriteEntry, if_neg fits]
  · simp only [settle, current, Option.map_some, if_true]

theorem Layout.batchWriteEntries_relinks
    {entries : List WALEntry}
    (layout : Layout engine config m [] last own)
    (nonempty : entries ≠ [])
    (storable : ∀ entry ∈ entries,
      engine.Storable config.segmentSize entry)
    (full : fileLen m.dir last.id < config.segmentSize →
      config.segmentSize <
        fileLen m.dir last.id + (records entries).length) (now : UInt64) :
    ∃ m', batchWriteEntries engine config m entries now = .ok m' ∧
      Relinked engine config m m' entries := by
  obtain ⟨header, current⟩ := layout.current
  have rotated := layout.rotated now
  have notEmpty : entries.isEmpty = false := by
    rw [List.isEmpty_eq_false_iff]
    exact nonempty
  by_cases early : fileLen m.dir last.id ≥ config.segmentSize
  · obtain ⟨segment, opened⟩ := rotated.1.current
    by_cases overflow :
        fileLen (rotateSegment engine config m now).dir segment.id +
          (frames (entries.map WALEntry.encode)).length > config.segmentSize
    · have again := rotated.rotate now
      obtain ⟨segment', opened'⟩ := again.1.current
      refine ⟨_, ?_, again.append current opened' storable⟩
      simp only [batchWriteEntries, notEmpty, rotateIfFull, current,
        if_pos early, opened, if_pos overflow, opened']
      rfl
    · refine ⟨_, ?_, rotated.append current opened storable⟩
      simp only [batchWriteEntries, notEmpty, rotateIfFull, current,
        if_pos early, opened, if_neg overflow]
      rfl
  · have overflow : fileLen m.dir last.id +
        (frames (entries.map WALEntry.encode)).length > config.segmentSize :=
      full (Nat.lt_of_not_le early)
    obtain ⟨segment, opened⟩ := rotated.1.current
    refine ⟨_, ?_, rotated.append current opened storable⟩
    simp only [batchWriteEntries, notEmpty, rotateIfFull, current,
      if_neg early, if_pos overflow, opened]
    rfl

theorem Layout.batchWriteEntries_stays
    {entries : List WALEntry}
    (layout : Layout engine config m [] last own)
    (nonempty : entries ≠ [])
    (open' : fileLen m.dir last.id < config.segmentSize)
    (room : fileLen m.dir last.id + (records entries).length ≤
      config.segmentSize) (now : UInt64) :
    ∃ m', batchWriteEntries engine config m entries now = .ok m' ∧
      settle m m' = .unlinked m' := by
  obtain ⟨header, current⟩ := layout.current
  have notEmpty : entries.isEmpty = false := by
    rw [List.isEmpty_eq_false_iff]
    exact nonempty
  have notFull : ¬ fileLen m.dir last.id ≥ config.segmentSize := by omega
  have fits : ¬ fileLen m.dir last.id +
      (frames (entries.map WALEntry.encode)).length > config.segmentSize :=
    Nat.not_lt.mpr room
  refine ⟨appendBatch engine m ⟨last.id, header⟩ entries, ?_, ?_⟩
  · simp only [batchWriteEntries, notEmpty, rotateIfFull, current,
      if_neg notFull, if_neg fits]
    rfl
  · simp only [settle, current, appendBatch, flush, Option.map_some,
      if_true]

/-- A call adds nothing, goes into the open file, or goes on in the
directory. -/
theorem Unlinked.call_cases
    (unlinked : Unlinked engine config m) {call : WalCall}
    (admissible : Admissible engine config call) :
    ∃ m', FileWal.call engine config m call = .ok m' ∧
      (call.entries = [] ∧ m' = m ∨
        m.Takes config call ∧ settle m m' = .unlinked m' ∨
        Relinked engine config m m' call.entries) := by
  obtain ⟨last, own, layout⟩ := unlinked
  obtain ⟨header, current⟩ := layout.current
  have single : ∀ (entry : WALEntry) (now : UInt64),
      Writable engine config entry →
      ∃ m', writeEntry engine config m entry now = .ok m' ∧
        (fileLen m.dir last.id + (entry.encode.length + 4) ≤
            config.segmentSize ∧ settle m m' = .unlinked m' ∨
          Relinked engine config m m' [entry]) := by
    intro entry now writable
    by_cases room : last.content.length + (entry.encode.length + 4) ≤
        config.segmentSize
    · obtain ⟨m', written, stays⟩ := layout.writeEntry_stays room now
      rw [← layout.fileLen_eq] at room
      exact ⟨m', written, Or.inl ⟨room, stays⟩⟩
    · obtain ⟨m', written, relinked⟩ :=
        layout.writeEntry_relinks writable (Nat.lt_of_not_le room) now
      exact ⟨m', written, Or.inr relinked⟩
  cases call with
  | writeOperation key value now =>
      obtain ⟨m', written, taken | relinked⟩ :=
        single _ now (admissible _ (List.mem_singleton_self _))
      · refine ⟨m', written, Or.inr (Or.inl ⟨⟨_, current, ?_⟩, taken.2⟩)⟩
        intro entry member
        rw [List.mem_singleton.mp member]
        exact taken.1
      · exact ⟨m', written, Or.inr (Or.inr relinked)⟩
  | writeDelete key now =>
      obtain ⟨m', written, taken | relinked⟩ :=
        single _ now (admissible _ (List.mem_singleton_self _))
      · refine ⟨m', written, Or.inr (Or.inl ⟨⟨_, current, ?_⟩, taken.2⟩)⟩
        intro entry member
        rw [List.mem_singleton.mp member]
        exact taken.1
      · exact ⟨m', written, Or.inr (Or.inr relinked)⟩
  | batchWriteOperations items now =>
      by_cases nothing : items = []
      · subst nothing
        exact ⟨m, rfl, Or.inl ⟨rfl, rfl⟩⟩
      · have notEmpty : ¬ items.isEmpty = true := by
          rw [List.isEmpty_iff]
          exact nothing
        have nonempty : (WalCall.batchWriteOperations items now).entries ≠
            [] := by
          rw [WalCall.entries, ne_eq, List.map_eq_nil_iff]
          exact nothing
        have called : FileWal.call engine config m
            (.batchWriteOperations items now) =
              batchWriteEntries engine config m
                (WalCall.batchWriteOperations items now).entries now := by
          rw [FileWal.call, batchWriteOperations, if_neg notEmpty]
          rfl
        have storable : ∀ entry ∈
            (WalCall.batchWriteOperations items now).entries,
              engine.Storable config.segmentSize entry := by
          intro entry member
          obtain ⟨item, inItems, rfl⟩ := List.mem_map.mp member
          exact admissible item inItems
        rw [called]
        by_cases taken : fileLen m.dir last.id < config.segmentSize ∧
            fileLen m.dir last.id +
              (records (WalCall.batchWriteOperations items
                now).entries).length ≤ config.segmentSize
        · obtain ⟨m', written, stays⟩ := layout.batchWriteEntries_stays
            nonempty taken.1 taken.2 now
          exact ⟨m', written, Or.inr (Or.inl
            ⟨⟨_, current, nothing, taken⟩, stays⟩)⟩
        · obtain ⟨m', written, relinked⟩ :=
            layout.batchWriteEntries_relinks nonempty storable
              (fun open' => Nat.lt_of_not_le
                fun room => taken ⟨open', room⟩) now
          exact ⟨m', written, Or.inr (Or.inr relinked)⟩

theorem flush_unlinked (unlinked : Unlinked engine config m) :
    Unlinked engine config (flush engine m) := by
  obtain ⟨last, own, layout⟩ := unlinked
  obtain ⟨header, current⟩ := layout.current
  have flushed := layout.change_last
    (overwrite (engine.encodeHeader header))
    (layout.clean.overwrite header) header
  have same : flush engine m =
      { m with
        dir := updateFile m.dir last.id
          (overwrite (engine.encodeHeader header))
        current := some ⟨last.id, header⟩ } := by
    simp only [flush, current, writeHeader]
  rw [same]
  exact ⟨_, own, flushed⟩

/-- The file that a rotation creates holds nothing yet. -/
theorem Unlinked.restart
    (unlinked : Unlinked engine config m) (now : UInt64) :
    Ready engine config (restart engine config m now) ∧
      recovered engine config (restart engine config m now).dir = [] := by
  obtain ⟨last, own, layout⟩ := unlinked
  obtain ⟨header, current⟩ := layout.current
  obtain ⟨closed, n, sameId, rotated, fresh⟩ := layout.rotate now
  have same : FileWal.restart engine config m now = n := by
    simp only [FileWal.restart, current]
    rw [← sameId]
    exact rotated.without
  rw [same]
  exact ⟨rotated.ready, fresh.recovered_eq⟩

end

end FileWal

/-! ## The indexed backend -/

namespace IndexedWalSegment

variable {config : WalConfig} {segment : IndexedWalSegment}

theorem isEmpty_eq_false_iff :
    segment.staging.isEmpty = false ↔ segment.staging ≠ [] := by
  rw [List.isEmpty_eq_false_iff]

theorem push_staging_ne_nil (entry : WALEntry) :
    (push segment (encodeEntry entry)).staging ≠ [] := by
  intro nothing
  have length := congrArg List.length nothing
  rw [push, List.length_append, encodeEntry, frame_length, List.length_nil]
    at length
  omega

theorem flushStagingUnlinked_refuses
    (capacity : hasFrameCapacity config segment = true)
    (staged : segment.staging ≠ []) :
    flushStagingUnlinked config segment = .error noFramesDir := by
  rw [flushStagingUnlinked, isEmpty_eq_false_iff.mpr staged,
    if_neg Bool.false_ne_true, if_pos capacity]

theorem commitFrameUnlinked_refuses
    (capacity : hasFrameCapacity config segment = true) :
    commitFrameUnlinked config segment = .error noFramesDir := by
  by_cases staged : segment.staging = []
  · have clear : flushStagingUnlinked config segment = .ok true := by
      rw [flushStagingUnlinked, if_pos (List.isEmpty_iff.mpr staged)]
    simp only [commitFrameUnlinked, clear, if_pos capacity]
  · simp only [commitFrameUnlinked,
      flushStagingUnlinked_refuses capacity staged]

/-- Another staging buffer over the same frames. -/
structure SameFrames (segment segment' : IndexedWalSegment) : Prop where
  id : segment'.segmentId = segment.segmentId
  next : segment'.stagingFrame = segment.stagingFrame

theorem SameFrames.refl (segment : IndexedWalSegment) :
    SameFrames segment segment := ⟨rfl, rfl⟩

theorem SameFrames.push
    {segment' : IndexedWalSegment} {encoded : Bytes}
    (same : SameFrames (push segment encoded) segment') :
    SameFrames segment segment' := ⟨same.id, same.next⟩

theorem SameFrames.capacity
    {segment' : IndexedWalSegment} (same : SameFrames segment segment') :
    hasFrameCapacity config segment' = hasFrameCapacity config segment := by
  rw [hasFrameCapacity, hasFrameCapacity, same.next]

theorem appendEntryUnlinked_refuses
    {entry : WALEntry} (committable : Committable config entry)
    (capacity : hasFrameCapacity config segment = true) :
    ∃ segment', appendEntryUnlinked config segment entry =
        (segment', .error noFramesDir) ∧ SameFrames segment segment' := by
  have pushed : flushStagingUnlinked config
      (push segment (encodeEntry entry)) = .error noFramesDir :=
    flushStagingUnlinked_refuses capacity (push_staging_ne_nil entry)
  by_cases oversized : (encodeEntry entry).length > frameSize config
  · refine ⟨segment, ?_, .refl segment⟩
    simp only [appendEntryUnlinked, if_pos oversized,
      commitFrameUnlinked_refuses capacity]
  · by_cases overflow : ¬ segment.staging.isEmpty ∧
        segment.staging.length + (encodeEntry entry).length > frameSize config
    · have staged : segment.staging ≠ [] := by
        intro nothing
        exact overflow.1 (List.isEmpty_iff.mpr nothing)
      refine ⟨segment, ?_, .refl segment⟩
      simp only [appendEntryUnlinked, if_neg oversized, if_pos overflow,
        flushStagingUnlinked_refuses capacity staged]
    · refine ⟨push segment (encodeEntry entry), ?_, rfl, rfl⟩
      have free : ¬ (segment.staging.isEmpty ∧
          ¬ hasFrameCapacity config segment) := fun full =>
        full.2 capacity
      by_cases exact' : segment.staging.isEmpty ∧
          (encodeEntry entry).length = frameSize config
      · simp only [appendEntryUnlinked, if_neg oversized, if_neg overflow,
          if_neg free, if_pos exact', pushed]
      · have synced : config.syncMode = .fsync ∨
            config.syncMode = .fsyncAsync := by
          rcases committable.reaches with fsync | long
          · exact Or.inl fsync
          · exfalso
            have whole : (encodeEntry entry).length = frameSize config := by
              omega
            by_cases clear : segment.staging.isEmpty = true
            · exact exact' ⟨clear, whole⟩
            · refine overflow ⟨clear, ?_⟩
              have positive : 0 < segment.staging.length :=
                List.length_pos_of_ne_nil fun nothing =>
                  clear (List.isEmpty_iff.mpr nothing)
              omega
        simp only [appendEntryUnlinked, if_neg oversized, if_neg overflow,
          if_neg free, if_neg exact', if_pos synced, pushed]

/-- Without a frame the caller has to rotate. -/
theorem appendEntryUnlinked_full
    (staged : segment.staging = [])
    (full : ¬ hasFrameCapacity config segment = true) (entry : WALEntry) :
    appendEntryUnlinked config segment entry = (segment, .ok false) := by
  have clear : segment.staging.isEmpty = true := List.isEmpty_iff.mpr staged
  have notOverflow : ¬ (¬ segment.staging.isEmpty = true ∧
      segment.staging.length + (encodeEntry entry).length >
        frameSize config) := fun overflow => overflow.1 clear
  by_cases oversized : (encodeEntry entry).length > frameSize config
  · simp only [appendEntryUnlinked, if_pos oversized, commitFrameUnlinked,
      flushStagingUnlinked, if_pos clear, if_neg full]
  · simp only [appendEntryUnlinked, if_neg oversized, if_neg notOverflow,
      if_pos (And.intro clear full)]

/-- The loop stops at the first frame that it has to write. -/
theorem appendEntriesLoopUnlinked_refuses
    (capacity : hasFrameCapacity config segment = true)
    (entries : List WALEntry) :
    ∃ segment', SameFrames segment segment' ∧
      (appendEntriesLoopUnlinked config segment entries =
          (segment', .error noFramesDir) ∨
        ∃ count, appendEntriesLoopUnlinked config segment entries =
            (segment', .ok (count, true)) ∧
          (entries ≠ [] ∨ segment.staging ≠ [] →
            segment'.staging ≠ [])) := by
  induction entries generalizing segment with
  | nil =>
      refine ⟨segment, .refl segment, Or.inr ⟨0, rfl, ?_⟩⟩
      intro nonempty
      exact nonempty.resolve_left fun absurd' => absurd' rfl
  | cons entry entries inductionHypothesis =>
      by_cases oversized : (encodeEntry entry).length > frameSize config
      · refine ⟨segment, .refl segment, Or.inl ?_⟩
        simp only [appendEntriesLoopUnlinked, if_pos oversized,
          commitFrameUnlinked_refuses capacity]
        rfl
      · by_cases overflow : ¬ segment.staging.isEmpty ∧
            segment.staging.length + (encodeEntry entry).length >
              frameSize config
        · have staged : segment.staging ≠ [] := by
            intro nothing
            exact overflow.1 (List.isEmpty_iff.mpr nothing)
          refine ⟨segment, .refl segment, Or.inl ?_⟩
          simp only [appendEntriesLoopUnlinked, if_neg oversized,
            if_pos overflow, flushStagingUnlinked_refuses capacity staged]
          rfl
        · have free : ¬ (segment.staging.isEmpty ∧
              ¬ hasFrameCapacity config segment) := fun full =>
            full.2 capacity
          have pushedCapacity : hasFrameCapacity config
              (push segment (encodeEntry entry)) = true := capacity
          obtain ⟨segment', same, result⟩ :=
            inductionHypothesis pushedCapacity
          refine ⟨segment', same.push, ?_⟩
          simp only [appendEntriesLoopUnlinked, if_neg oversized,
            if_neg overflow, if_neg free]
          rcases result with refused | ⟨count, taken, staged⟩
          · rw [refused]
            exact Or.inl rfl
          · rw [taken]
            exact Or.inr ⟨count + 1, rfl, fun _ =>
              staged (Or.inr (push_staging_ne_nil entry))⟩

theorem appendEntriesBatchUnlinked_refuses
    (capacity : hasFrameCapacity config segment = true)
    {entries : List WALEntry} (nonempty : entries ≠ []) :
    ∃ segment', appendEntriesBatchUnlinked config segment entries =
        (segment', .error noFramesDir) ∧ SameFrames segment segment' := by
  obtain ⟨segment', same, result⟩ :=
    appendEntriesLoopUnlinked_refuses capacity entries
  refine ⟨segment', ?_, same⟩
  rcases result with refused | ⟨count, taken, staged⟩
  · simp only [appendEntriesBatchUnlinked, refused]
  · have left : hasFrameCapacity config segment' = true :=
      same.capacity.trans capacity
    simp only [appendEntriesBatchUnlinked, taken,
      flushStagingUnlinked_refuses left (staged (Or.inl nonempty))]

theorem appendEntriesBatchUnlinked_full
    (staged : segment.staging = [])
    (full : ¬ hasFrameCapacity config segment = true)
    {entries : List WALEntry} (nonempty : entries ≠ []) :
    appendEntriesBatchUnlinked config segment entries = (segment, .ok 0) := by
  have clear : segment.staging.isEmpty = true := List.isEmpty_iff.mpr staged
  cases entries with
  | nil => exact absurd rfl nonempty
  | cons entry entries =>
      have notOverflow : ¬ (¬ segment.staging.isEmpty = true ∧
          segment.staging.length + (encodeEntry entry).length >
            frameSize config) := fun overflow => overflow.1 clear
      have none : appendEntriesLoopUnlinked config segment
          (entry :: entries) = (segment, .ok (0, false)) := by
        by_cases oversized : (encodeEntry entry).length > frameSize config
        · simp only [appendEntriesLoopUnlinked, if_pos oversized,
            commitFrameUnlinked, flushStagingUnlinked, if_pos clear,
            if_neg full]
          rfl
        · simp only [appendEntriesLoopUnlinked, if_neg oversized,
            if_neg notOverflow, if_pos (And.intro clear full)]
      simp only [appendEntriesBatchUnlinked, none]

end IndexedWalSegment

namespace IndexedWal

open IndexedWalSegment

variable {config : WalConfig} {m : IndexedWal}

/-- Nothing is left in the directory, and what is staged has a frame. -/
structure Unlinked (config : WalConfig) (m : IndexedWal) : Prop where
  disk : m.disk = ⟨none, false, []⟩
  tracked : ∀ id ∈ m.segments, id < m.counter
  opened : ∃ slots latest segment,
    m.handle = some (slots, latest, segment) ∧
      segment.segmentId < m.counter ∧
      (segment.staging ≠ [] → hasFrameCapacity config segment = true)

theorem Ready.unlink (ready : Ready config m) :
    Unlinked config m.unlink := by
  obtain ⟨active, older, dir, later, layout⟩ := ready
  have opened := layout.opened
  rw [IndexedWal.active, Option.map_eq_some_iff] at opened
  obtain ⟨⟨slots, latest, segment⟩, handle, rfl⟩ := opened
  constructor
  case disk => rfl
  case tracked => exact fun id member => (layout.tracked id member).2
  case opened =>
    refine ⟨slots, latest, segment, handle, ?_, ?_⟩
    · have name := layout.segment.name
      simp only at name
      rw [← name]
      exact layout.above dir (by simp [layout.dirs])
    · intro staged
      exact absurd layout.staged.staging staged

theorem Unlinked.started
    (unlinked : Unlinked config m) {id : Nat} (below : id < m.counter)
    (now : UInt64) :
    Roomy config (startSegment config (sealSegment m id) now) ∧
      (startSegment config (sealSegment m id) now).disk.recovered = [] := by
  have dirs : (sealSegment m id).disk.dirs = [] := by
    change m.disk.dirs = []
    rw [unlinked.disk]
  have above : ∀ dir ∈ (sealSegment m id).disk.dirs,
      dir.segmentId < (sealSegment m id).counter := by
    rw [dirs]
    exact fun dir member => absurd member List.not_mem_nil
  have tracked : ∀ other ∈ (sealSegment m id).segments,
      other < (sealSegment m id).counter := by
    intro other member
    rcases List.mem_append.mp member with old | new
    · exact unlinked.tracked other (List.mem_of_mem_filter old)
    · rw [List.mem_singleton.mp new]
      exact below
  constructor
  · refine startSegment_roomy ?_ ?_ above tracked now
    · rw [dirs]
      exact List.Pairwise.nil
    · rw [dirs]
      exact fun dir member => absurd member List.not_mem_nil
  · rw [startSegment_recovered above, IndexedDisk.recovered, dirs]
    rfl

theorem Unlinked.withSegment
    (unlinked : Unlinked config m) {slots : IndexSlots}
    {latest : WalIndexHeader} {segment segment' : IndexedWalSegment}
    (same : SameFrames segment segment')
    (below : segment.segmentId < m.counter)
    (capacity : hasFrameCapacity config segment = true) :
    Unlinked config { m with handle := some (slots, latest, segment') } := by
  refine ⟨unlinked.disk, unlinked.tracked, slots, latest, segment', rfl, ?_,
    fun _ => same.capacity.trans capacity⟩
  rw [same.id]
  exact below

/-- A call that has begun a new segment. -/
def Relinked (config : WalConfig) (log : LogState IndexedWal)
    (entries : List WALEntry) : Prop :=
  ∃ m, log = .linked m ∧ Ready config m ∧ m.disk.recovered = entries

theorem Unlinked.writeEntry_cases
    (unlinked : Unlinked config m) {entry : WALEntry}
    (committable : Committable config entry) (now : UInt64) :
    (∃ m' error, writeEntryUnlinked config m entry now =
        (.unlinked m', .error error) ∧ Unlinked config m') ∨
      ∃ log, writeEntryUnlinked config m entry now = (log, .ok ()) ∧
        Relinked config log [entry] := by
  obtain ⟨slots, latest, segment, handle, below, staged⟩ := unlinked.opened
  by_cases capacity : hasFrameCapacity config segment = true
  · obtain ⟨segment', refused, same⟩ :=
      appendEntryUnlinked_refuses committable capacity
    refine Or.inl ⟨{ m with handle := some (slots, latest, segment') },
      noFramesDir, ?_, unlinked.withSegment same below capacity⟩
    simp only [writeEntryUnlinked, handle, refused]
  · have clear : segment.staging = [] := by
      by_contra nonempty
      exact capacity (staged nonempty)
    have full := appendEntryUnlinked_full clear capacity entry
    have rotated : rotateSegmentUnlinked config m segment now =
        .ok (startSegment config (sealSegment m segment.segmentId) now) := by
      simp only [rotateSegmentUnlinked, flushStagingUnlinked,
        if_pos (List.isEmpty_iff.mpr clear)]
    obtain ⟨roomy, empty⟩ := unlinked.started below now
    obtain ⟨active, older, dir, later, layout, room⟩ := roomy
    obtain ⟨active', dir', appended, advances⟩ :=
      appendEntry_advances layout.segment layout.staged committable room
    have grows := layout.setActive_grows advances
    have sameHandle : { m with handle := some (slots, latest, segment) } =
        m := by rw [← handle]
    refine Or.inr ⟨_, ?_, _, rfl, grows.ready, ?_⟩
    · simp only [writeEntryUnlinked, handle, full, sameHandle, rotated,
        retryEntry, layout.opened, appended]
    · rw [grows.recovered, empty]
      rfl

theorem Unlinked.batchLoop_cases
    (unlinked : Unlinked config m) {entries : List WALEntry}
    (nonempty : entries ≠ []) (fits : BatchFits config entries)
    (now : UInt64) :
    (∃ m' error, batchLoopUnlinked config m entries now =
        (.unlinked m', .error error) ∧ Unlinked config m') ∨
      ∃ log, batchLoopUnlinked config m entries now = (log, .ok ()) ∧
        Relinked config log entries := by
  obtain ⟨slots, latest, segment, handle, below, staged⟩ := unlinked.opened
  have notEmpty : ¬ entries.isEmpty = true := by
    rw [List.isEmpty_iff]
    exact nonempty
  by_cases capacity : hasFrameCapacity config segment = true
  · obtain ⟨segment', refused, same⟩ :=
      appendEntriesBatchUnlinked_refuses capacity nonempty
    refine Or.inl ⟨{ m with handle := some (slots, latest, segment') },
      noFramesDir, ?_, unlinked.withSegment same below capacity⟩
    simp only [batchLoopUnlinked, if_neg notEmpty, handle, refused]
  · have clear : segment.staging = [] := by
      by_contra nonempty
      exact capacity (staged nonempty)
    have full := appendEntriesBatchUnlinked_full clear capacity nonempty
    have rotated : rotateSegmentUnlinked config m segment now =
        .ok (startSegment config (sealSegment m segment.segmentId) now) := by
      simp only [rotateSegmentUnlinked, flushStagingUnlinked,
        if_pos (List.isEmpty_iff.mpr clear)]
    obtain ⟨roomy, empty⟩ := unlinked.started below now
    obtain ⟨m', looped, grows⟩ := batchLoop_roomy 1 roomy fits now
    have sameHandle : { m with handle := some (slots, latest, segment) } =
        m := by rw [← handle]
    have some' : ¬ 0 = entries.length := by
      intro none
      exact nonempty (List.length_eq_zero_iff.mp none.symm)
    refine Or.inr ⟨_, ?_, m', rfl, grows.ready, ?_⟩
    · simp only [batchLoopUnlinked, if_neg notEmpty, handle, full,
        if_neg some', sameHandle, rotated, List.drop_zero, if_true,
        continueBatch, looped]
    · rw [grows.recovered, empty]
      rfl

theorem Unlinked.callUnlinked_cases
    (unlinked : Unlinked config m) {call : WalCall}
    (admissible : WalHandle.Admissible config .indexed call) :
    (∃ m' result, callUnlinked config m call = (.unlinked m', result) ∧
        Unlinked config m' ∧ (result = .ok () → call.entries = [])) ∨
      ∃ log, callUnlinked config m call = (log, .ok ()) ∧
        Relinked config log call.entries := by
  have single : ∀ (entry : WALEntry) (now : UInt64),
      Committable config entry →
      (∃ m' result, writeEntryUnlinked config m entry now =
          (.unlinked m', result) ∧ Unlinked config m' ∧
          (result = .ok () → [entry] = [])) ∨
        ∃ log, writeEntryUnlinked config m entry now = (log, .ok ()) ∧
          Relinked config log [entry] := by
    intro entry now committable
    rcases unlinked.writeEntry_cases committable now with refused | relinked
    · obtain ⟨m', error, result, kept⟩ := refused
      exact Or.inl ⟨m', _, result, kept, fun ok => absurd ok (by simp)⟩
    · exact Or.inr relinked
  cases call with
  | writeOperation key value now =>
      exact single _ now (admissible _ (List.mem_singleton_self _))
  | writeDelete key now =>
      exact single _ now (admissible _ (List.mem_singleton_self _))
  | batchWriteOperations items now =>
      have fits : BatchFits config
          (WalCall.batchWriteOperations items now).entries := admissible
      by_cases nothing :
          (WalCall.batchWriteOperations items now).entries = []
      · refine Or.inl ⟨m, .ok (), ?_, unlinked, fun _ => nothing⟩
        change batchLoopUnlinked config m
          (WalCall.batchWriteOperations items now).entries now = _
        rw [nothing]
        rfl
      · rcases unlinked.batchLoop_cases nothing fits now with
          refused | relinked
        · obtain ⟨m', error, result, kept⟩ := refused
          exact Or.inl ⟨m', _, result, kept, fun ok => absurd ok (by simp)⟩
        · exact Or.inr relinked

theorem Unlinked.markCleanShutdown_cases
    (unlinked : Unlinked config m) {now : UInt64}
    (committable : Committable config (.checkpoint now)) :
    (∃ m' error, markCleanShutdownUnlinked config m now =
        (.unlinked m', .error error) ∧ Unlinked config m') ∨
      ∃ log, markCleanShutdownUnlinked config m now = (log, .ok ()) ∧
        Relinked config log [] := by
  rcases unlinked.writeEntry_cases committable now with refused | relinked
  · obtain ⟨m', error, result, kept⟩ := refused
    refine Or.inl ⟨m', error, ?_, kept⟩
    simp only [markCleanShutdownUnlinked, result]
  · obtain ⟨log, result, m', rfl, ready, -⟩ := relinked
    have emptied := truncateAfterFlush_ready config m' now
    refine Or.inr ⟨_, ?_, _, rfl, emptied.1, emptied.2⟩
    simp only [markCleanShutdownUnlinked, result, flush_eq_self ready]

end IndexedWal

/-! ## The handle -/

namespace WalHandle

variable {config : WalConfig} {handle : WalHandle}

/-- Nothing of the handle is in the directory. -/
def Unlinked (config : WalConfig) : WalHandle → Prop
  | .segment wal => FileWal.Unlinked .segment config wal
  | .frame wal => FileWal.Unlinked .frame config wal
  | .indexed wal => IndexedWal.Unlinked config wal

theorem Ready.unlink (ready : handle.Ready config) :
    handle.unlink.Unlinked config := by
  cases handle with
  | segment wal => exact FileWal.Ready.unlink ready
  | frame wal => exact FileWal.Ready.unlink ready
  | indexed wal => exact IndexedWal.Ready.unlink ready

/-- The directory may be removed once more. -/
theorem Unlinked.unlink (unlinked : handle.Unlinked config) :
    handle.unlink.Unlinked config := by
  cases handle with
  | segment wal => exact FileWal.Ready.unlink (FileWal.Unlinked.ready unlinked)
  | frame wal => exact FileWal.Ready.unlink (FileWal.Unlinked.ready unlinked)
  | indexed wal =>
      have unlinked : IndexedWal.Unlinked config wal := unlinked
      exact ⟨rfl, unlinked.tracked, unlinked.opened⟩

/-- A handle that goes on in the directory. -/
structure Relinked (config : WalConfig) (handle handle' : WalHandle)
    (entries : List WALEntry) : Prop where
  engine : handle'.disk.engine = handle.disk.engine
  ready : handle'.Ready config
  recovered : handle'.disk.recovered config = entries

/-- The two ways in which a call without a directory can end: nothing is
found by a start, or the entries of the call are. -/
structure CallEnd (config : WalConfig) (handle : WalHandle) (call : WalCall)
    (log : LogState WalHandle) (result : Except LsmError Unit) : Prop where
  engine : log.wal.disk.engine = handle.disk.engine
  unlinked : ∀ handle', log = .unlinked handle' →
    handle.Takes config call ∨
      handle'.Unlinked config ∧ (result = .ok () → call.entries = [])
  linked : ∀ handle', log = .linked handle' →
    result = .ok () ∧ Relinked config handle handle' call.entries

private theorem CallEnd.of_log
    {α : Type} {wrap : α → WalHandle} {call : WalCall} {log : LogState α}
    {result : Except LsmError Unit}
    (engine : ∀ wal, (wrap wal).disk.engine = handle.disk.engine)
    (stays : ∀ wal, log = .unlinked wal → handle.Takes config call ∨
      (wrap wal).Unlinked config ∧ (result = .ok () → call.entries = []))
    (relinks : ∀ wal, log = .linked wal → result = .ok () ∧
      (wrap wal).Ready config ∧
      (wrap wal).disk.recovered config = call.entries) :
    CallEnd config handle call (log.map wrap) result := by
  cases log with
  | unlinked wal =>
      refine ⟨engine wal, ?_, fun _ other => absurd other (by simp
        [LogState.map])⟩
      intro _ same
      cases same
      exact stays wal rfl
  | linked wal =>
      refine ⟨engine wal, fun _ other => absurd other (by simp
        [LogState.map]), ?_⟩
      intro _ same
      cases same
      obtain ⟨done, ready, recovered⟩ := relinks wal rfl
      exact ⟨done, engine wal, ready, recovered⟩

private theorem fileCall_end
    {engine : FileEngine} {wal : FileWal} {call : WalCall}
    (unlinked : FileWal.Unlinked engine config wal)
    (admissible : FileWal.Admissible engine config call) :
    ∃ log, FileWal.callUnlinked engine config wal call = (log, .ok ()) ∧
      (∀ wal', log = .unlinked wal' → wal.Takes config call ∨
        FileWal.Unlinked engine config wal' ∧ call.entries = []) ∧
      (∀ wal', log = .linked wal' → FileWal.Ready engine config wal' ∧
        FileWal.recovered engine config wal'.dir = call.entries) := by
  obtain ⟨wal', called, nothing | taken | relinked⟩ :=
    unlinked.call_cases admissible
  · obtain ⟨empty, rfl⟩ := nothing
    obtain ⟨last, own, layout⟩ := unlinked
    obtain ⟨header, current⟩ := layout.current
    have stays : FileWal.settle wal' wal' = .unlinked wal' := by
      simp only [FileWal.settle, current, Option.map_some, if_true]
    refine ⟨.unlinked wal', ?_, ?_, ?_⟩
    · simp only [FileWal.callUnlinked, called, stays]
    · intro _ same
      cases same
      exact Or.inr ⟨⟨last, own, layout⟩, empty⟩
    · exact fun _ other => absurd other (by simp)
  · refine ⟨.unlinked wal', ?_, ?_, ?_⟩
    · simp only [FileWal.callUnlinked, called, taken.2]
    · exact fun _ _ => Or.inl taken.1
    · exact fun _ other => absurd other (by simp)
  · obtain ⟨n, settled, ready, holds⟩ := relinked
    refine ⟨.linked n, ?_, ?_, ?_⟩
    · simp only [FileWal.callUnlinked, called, settled]
    · exact fun _ other => absurd other (by simp)
    · intro _ same
      cases same
      exact ⟨ready, holds⟩

theorem Unlinked.callUnlinked_end
    (unlinked : handle.Unlinked config) {call : WalCall}
    (admissible : Admissible config handle.disk.engine call) :
    CallEnd config handle call (handle.callUnlinked config call).1
      (handle.callUnlinked config call).2 := by
  cases handle with
  | segment wal =>
      obtain ⟨log, result, stays, relinks⟩ :=
        fileCall_end unlinked (Admissible.segment admissible)
      simp only [callUnlinked, result, Prod.map, id]
      exact CallEnd.of_log (fun _ => rfl)
        (fun wal' same => (stays wal' same).imp_right
          fun kept => ⟨kept.1, fun _ => kept.2⟩)
        (fun wal' same => ⟨rfl, relinks wal' same⟩)
  | frame wal =>
      obtain ⟨log, result, stays, relinks⟩ :=
        fileCall_end unlinked (Admissible.frame admissible)
      simp only [callUnlinked, result, Prod.map, id]
      exact CallEnd.of_log (fun _ => rfl)
        (fun wal' same => (stays wal' same).imp_right
          fun kept => ⟨kept.1, fun _ => kept.2⟩)
        (fun wal' same => ⟨rfl, relinks wal' same⟩)
  | indexed wal =>
      rcases IndexedWal.Unlinked.callUnlinked_cases unlinked admissible with
        refused | relinked
      · obtain ⟨wal', result, called, kept, empty⟩ := refused
        simp only [callUnlinked, called, Prod.map, id]
        refine @CallEnd.of_log _ _ _ indexed _ _ _ (fun _ => rfl) ?_ ?_
        · intro _ same
          cases same
          exact Or.inr ⟨kept, empty⟩
        · intro _ same
          cases same
      · obtain ⟨log, called, wal', rfl, ready, holds⟩ := relinked
        simp only [callUnlinked, called, Prod.map, id]
        refine @CallEnd.of_log _ _ _ indexed _ _ _ (fun _ => rfl) ?_ ?_
        · intro _ same
          cases same
        · intro _ same
          cases same
          exact ⟨rfl, ready, holds⟩

theorem Unlinked.flushUnlinked
    (unlinked : handle.Unlinked config) :
    (handle.flushUnlinked config).1.Unlinked config ∧
      (handle.flushUnlinked config).1.disk.engine = handle.disk.engine := by
  cases handle with
  | segment wal => exact ⟨FileWal.flush_unlinked unlinked, rfl⟩
  | frame wal => exact ⟨FileWal.flush_unlinked unlinked, rfl⟩
  | indexed wal => exact ⟨unlinked, rfl⟩

/-- A clean shutdown ends with a new log, or fails and changes nothing that a
start would find. -/
theorem Unlinked.markCleanShutdownUnlinked_end
    (unlinked : handle.Unlinked config) {now : UInt64}
    (admits : AdmitsCheckpoint config handle.disk.engine now) :
    (∃ handle' error, handle.markCleanShutdownUnlinked config now =
        (.unlinked handle', .error error) ∧ handle'.Unlinked config ∧
        handle'.disk.engine = handle.disk.engine) ∨
      ∃ handle', handle.markCleanShutdownUnlinked config now =
          (.linked handle', .ok ()) ∧
        Relinked config handle handle' [] := by
  cases handle with
  | segment wal =>
      have ready : FileWal.Ready .segment config wal :=
        FileWal.Unlinked.ready unlinked
      obtain ⟨wal', closed, emptied⟩ :=
        FileWal.markCleanShutdown_ready ready admits
      refine Or.inr ⟨.segment wal', ?_, rfl, emptied.1, emptied.2⟩
      simp only [markCleanShutdownUnlinked,
        FileWal.markCleanShutdownUnlinked, closed]
      rfl
  | frame wal =>
      have ready : FileWal.Ready .frame config wal :=
        FileWal.Unlinked.ready unlinked
      obtain ⟨wal', closed, emptied⟩ :=
        FileWal.markCleanShutdown_ready ready admits
      refine Or.inr ⟨.frame wal', ?_, rfl, emptied.1, emptied.2⟩
      simp only [markCleanShutdownUnlinked,
        FileWal.markCleanShutdownUnlinked, closed]
      rfl
  | indexed wal =>
      rcases IndexedWal.Unlinked.markCleanShutdown_cases unlinked admits with
        refused | relinked
      · obtain ⟨wal', error, closed, kept⟩ := refused
        refine Or.inl ⟨.indexed wal', error, ?_, kept, rfl⟩
        simp only [markCleanShutdownUnlinked, closed]
        rfl
      · obtain ⟨log, closed, wal', rfl, ready, empty⟩ := relinked
        refine Or.inr ⟨.indexed wal', ?_, rfl, ready, empty⟩
        simp only [markCleanShutdownUnlinked, closed]
        rfl

end WalHandle

end F4kvsLsm
