import F4kvsLsm.Lib.HighWater
import F4kvsLsm.Wal.FileWalInvariant

/-!
# Writing to and opening the file log managers

Each operation of a manager in terms of what it adds to the directory.  A
single entry has to fit an empty segment; a batch is written whatever its
size, and each of its entries only has to be readable.
-/

namespace F4kvsLsm

open ByteCodec

namespace FileWal

variable {engine : FileEngine} {config : WalConfig}

/-- A single entry that the write path of a manager really writes. -/
structure Writable (engine : FileEngine) (config : WalConfig)
    (entry : WALEntry) : Prop where
  room : engine.headerSize + (entry.encode.length + 4) ≤ config.segmentSize
  fits : entry.encode.length < 2 ^ 32
  notJson : entry.holdsJson = false

theorem Writable.storable
    {entry : WALEntry} (writable : Writable engine config entry) :
    engine.Storable config.segmentSize entry := by
  have room := writable.room
  refine ⟨writable.fits, ?_, writable.notJson⟩
  cases engine with
  | segment =>
      simp only [FileEngine.accepts, decide_eq_true_eq]
      omega
  | frame => rfl

section

variable {m : FileWal} {older : List WalFile} {last : WalFile}
variable {own : List WALEntry}

theorem segmentWriteEntry_fits
    {entry : WALEntry}
    (layout : Layout engine config m older last own)
    (storable : engine.Storable config.segmentSize entry)
    (room : last.content.length + (entry.encode.length + 4) ≤
      config.segmentSize) (header : WALSegmentHeader) :
    ∃ dir segment,
      segmentWriteEntry config m.dir ⟨last.id, header⟩ entry =
        (dir, segment, true) ∧
      Grows engine config m { m with dir := dir, current := some segment }
        [entry] := by
  have fits : ¬ fileLen m.dir last.id + (entry.encode.length + 4) >
      config.segmentSize := by
    rw [layout.fileLen_eq]
    omega
  have clean : engine.Clean config.segmentSize
      (last.content ++ frame entry.encode) (own ++ [entry]) := by
    rw [← records_singleton]
    exact layout.clean.append (by simpa using storable)
  have grown := layout.change_last (· ++ frame entry.encode) clean
    { header with entryCount := header.entryCount + 1 }
  refine ⟨updateFile m.dir last.id (· ++ frame entry.encode),
    ⟨last.id, { header with entryCount := header.entryCount + 1 }⟩, ?_, ?_⟩
  · simp only [segmentWriteEntry, if_neg fits]
  · exact layout.grows grown rfl
      (drop_append_keeps layout.clean.headerSize_le)

/-- A write that asks for a rotation changes nothing. -/
theorem segmentWriteEntry_full
    {entry : WALEntry}
    (layout : Layout engine config m older last own)
    (full : config.segmentSize <
      last.content.length + (entry.encode.length + 4))
    (header : WALSegmentHeader) :
    segmentWriteEntry config m.dir ⟨last.id, header⟩ entry =
      (m.dir, ⟨last.id, header⟩, false) := by
  have exceeds : fileLen m.dir last.id + (entry.encode.length + 4) >
      config.segmentSize := by
    rw [layout.fileLen_eq]
    exact full
  simp only [segmentWriteEntry, if_pos exceeds]

/-- An entry that fits an empty segment is written, after a rotation if the
open one is full. -/
theorem writeEntry_grows
    {entry : WALEntry} (ready : Ready engine config m)
    (writable : Writable engine config entry) (now : UInt64) :
    ∃ m', writeEntry engine config m entry now = .ok m' ∧
      Grows engine config m m' [entry] := by
  have rotatedGrows := rotateSegment_grows ready now
  obtain ⟨older, last, own, layout⟩ := ready
  obtain ⟨header, current⟩ := layout.current
  by_cases room : last.content.length + (entry.encode.length + 4) ≤
      config.segmentSize
  · obtain ⟨dir, segment, written, grows⟩ :=
      segmentWriteEntry_fits layout writable.storable room header
    exact ⟨{ m with dir := dir, current := some segment },
      by simp only [writeEntry, current, written], grows⟩
  · have full :=
      segmentWriteEntry_full layout (Nat.lt_of_not_le room) header
    have rotated := rotateSegment_layout layout current now
    obtain ⟨freshHeader, freshCurrent⟩ := rotated.current
    have freshRoom : (freshFile engine config m.counter now).content.length +
        (entry.encode.length + 4) ≤ config.segmentSize := by
      simpa [freshFile] using writable.room
    obtain ⟨dir, segment, written, grows⟩ :=
      segmentWriteEntry_fits rotated writable.storable freshRoom freshHeader
    refine ⟨{ rotateSegment engine config m now with
      dir := dir, current := some segment }, ?_, rotatedGrows.trans grows⟩
    simp only [writeEntry, current, full, freshCurrent, written]

/-- Persisting the header keeps the records. -/
theorem flush_grows (ready : Ready engine config m) :
    Grows engine config m (flush engine m) [] := by
  obtain ⟨older, last, own, layout⟩ := ready
  obtain ⟨header, current⟩ := layout.current
  have flushed := layout.change_last
    (overwrite (engine.encodeHeader header))
    (layout.clean.overwrite header) header
  have sameState : flush engine m =
      { m with
        dir := updateFile m.dir last.id
          (overwrite (engine.encodeHeader header))
        current := some ⟨last.id, header⟩ } := by
    simp only [flush, current, writeHeader]
  rw [sameState]
  have grown : Layout engine config _ older _ (own ++ []) :=
    (List.append_nil own).symm ▸ flushed
  refine layout.grows grown rfl ?_
  simp only [FileEngine.overwrite_drop (engine.encodeHeader_length _),
    List.prefix_rfl]

theorem appendBatch_grows
    {entries : List WALEntry} (ready : Ready engine config m)
    {segment : OpenSegment} (current : m.current = some segment)
    (storable : ∀ entry ∈ entries,
      engine.Storable config.segmentSize entry) :
    Grows engine config m (appendBatch engine m segment entries)
      entries := by
  obtain ⟨older, last, own, layout⟩ := ready
  obtain ⟨header, current'⟩ := layout.current
  rw [current', Option.some.injEq] at current
  subst current
  have appended := layout.change_last (· ++ records entries)
    (layout.clean.append storable)
    { header with entryCount := header.entryCount + entries.length }
  have grows := layout.grows appended rfl
    (drop_append_keeps layout.clean.headerSize_le)
  have flushed := grows.trans (flush_grows grows.ready)
  rw [List.append_nil] at flushed
  exact flushed

theorem Ready.current (ready : Ready engine config m) :
    ∃ segment, m.current = some segment := by
  obtain ⟨older, last, own, layout⟩ := ready
  obtain ⟨header, current⟩ := layout.current
  exact ⟨⟨last.id, header⟩, current⟩

theorem grows_self (ready : Ready engine config m) :
    Grows engine config m m [] :=
  ⟨ready, (List.append_nil _).symm, Extends.refl _⟩

theorem rotateIfFull_grows
    (ready : Ready engine config m) (now : UInt64) :
    Grows engine config m (rotateIfFull engine config m now) [] := by
  obtain ⟨segment, current⟩ := ready.current
  by_cases full : fileLen m.dir segment.id ≥ config.segmentSize
  · simp only [rotateIfFull, current, if_pos full]
    exact rotateSegment_grows ready now
  · simp only [rotateIfFull, current, if_neg full]
    exact grows_self ready

theorem batchWriteEntries_grows
    {entries : List WALEntry} (ready : Ready engine config m)
    (storable : ∀ entry ∈ entries,
      engine.Storable config.segmentSize entry) (now : UInt64) :
    ∃ m', batchWriteEntries engine config m entries now = .ok m' ∧
      Grows engine config m m' entries := by
  by_cases empty : entries.isEmpty
  · have nil : entries = [] := List.isEmpty_iff.mp empty
    subst nil
    exact ⟨m, rfl, grows_self ready⟩
  · have early := rotateIfFull_grows ready now
    obtain ⟨segment, current⟩ := early.ready.current
    by_cases overflow :
        fileLen (rotateIfFull engine config m now).dir segment.id +
          (frames (entries.map WALEntry.encode)).length > config.segmentSize
    · have late := rotateSegment_grows early.ready now
      obtain ⟨segment', current'⟩ := late.ready.current
      have appended := appendBatch_grows late.ready current' storable
      refine ⟨_, ?_, early.trans (late.trans appended)⟩
      simp only [batchWriteEntries, empty, current, if_pos overflow, current']
      rfl
    · have appended := appendBatch_grows early.ready current storable
      refine ⟨_, ?_, early.trans appended⟩
      simp only [batchWriteEntries, empty, current, if_neg overflow]
      rfl

end

/-! ## Opening -/

theorem foldl_max_ascending
    {dir : List WalFile} {last : WalFile}
    (ascending : Ascending (dir ++ [last])) :
    ((dir ++ [last]).map (·.id)).foldl max 0 = last.id := by
  rw [List.map_append]
  apply HighWater.foldl_max_concat _ (Nat.zero_le _)
  intro id member
  obtain ⟨file, inside, rfl⟩ := List.mem_map.mp member
  exact Nat.le_of_lt
    ((List.pairwise_append.mp ascending).2.2 file inside last (by simp))

theorem scanExistingSegments_above (dir : List WalFile) :
    ∀ file ∈ dir, file.id < scanExistingSegments dir := by
  intro file member
  exact Nat.lt_succ_of_le ((HighWater.le_foldl_max (dir.map (·.id)) 0).2
    file.id (List.mem_map_of_mem member))

/-- An opened log holds what the directory held. -/
structure Opens (engine : FileEngine) (config : WalConfig)
    (dir : List WalFile) (m : FileWal) : Prop where
  ready : Ready engine config m
  recovered : recovered engine config m.dir = recovered engine config dir
  kept : Extends engine dir m.dir

theorem rotateSegment_opens
    {dir : List WalFile} (onDisk : OnDisk engine dir) (now : UInt64) :
    Opens engine config dir
      (rotateSegment engine config
        { new dir with counter := scanExistingSegments dir } now) := by
  have layout : Layout engine config
      (rotateSegment engine config
        { new dir with counter := scanExistingSegments dir } now)
      dir _ [] :=
    rotateSegment_layout_of_closed onDisk
      (scanExistingSegments_above dir) (by simp [new]) now
  refine ⟨⟨_, _, _, layout⟩, ?_, ?_⟩
  · exact layout.recovered_eq.trans (List.append_nil _)
  · rw [layout.dir]
    exact Extends.append_right _ _

theorem scanExistingSegments_last
    {older : List WalFile} {last : WalFile}
    (ascending : Ascending (older ++ [last])) :
    scanExistingSegments (older ++ [last]) = last.id + 1 := by
  rw [scanExistingSegments, foldl_max_ascending ascending]

/-- A bare header that is reused holds nothing. -/
theorem tryReuse_opens
    {dir : List WalFile} {m : FileWal} {now : UInt64}
    (onDisk : OnDisk engine dir)
    (reused : tryReuseLastEmptySegment engine config
      { new dir with counter := scanExistingSegments dir } now = some m) :
    Opens engine config dir m := by
  rcases List.eq_nil_or_concat dir with rfl | ⟨older, last, rfl⟩
  · simp [tryReuseLastEmptySegment, scanExistingSegments] at reused
  · rw [List.concat_eq_append] at *
    have counter := scanExistingSegments_last onDisk.ascending
    have headed := (List.forall_mem_append.mp onDisk.headed).1
    have lastHeaded : HeadedFile engine last :=
      onDisk.headed last (by simp)
    simp only [tryReuseLastEmptySegment, new, counter,
      Nat.add_sub_cancel] at reused
    rw [fileLen_append_singleton onDisk.ascending] at reused
    by_cases first : last.id + 1 ≤ 1
    · simp [first] at reused
    · by_cases bare : last.content.length = engine.headerSize
      · simp only [first, bare, if_false, List.any_append, List.any_cons,
          decide_true, Bool.true_or, Bool.or_true, true_and, if_true,
          Option.some.injEq] at reused
        subst reused
        have clean : engine.Clean config.segmentSize last.content [] :=
          ⟨last.content, ⟨bare, lastHeaded (Nat.le_of_eq bare.symm)⟩,
            by simp, by simp⟩
        have layout : Layout engine config
            ⟨older ++ [last], some ⟨last.id, newHeader config now⟩, [],
              last.id + 1⟩ older last [] :=
          ⟨rfl, onDisk.ascending, headed, ⟨_, rfl⟩, rfl, by simp, clean⟩
        exact ⟨⟨_, _, _, layout⟩, rfl, Extends.refl _⟩
      · simp [first, bare] at reused

/-- Opening a log keeps its entries and its record bytes. -/
theorem initializeWal_opens
    {dir : List WalFile} (onDisk : OnDisk engine dir) (now : UInt64) :
    Opens engine config dir (initializeWal engine config (new dir) now) := by
  have rotated : Opens engine config dir
      (rotateSegment engine config
        { new dir with counter := scanExistingSegments dir } now) :=
    rotateSegment_opens onDisk now
  cases engine with
  | frame => exact rotated
  | segment =>
      cases reuse : tryReuseLastEmptySegment .segment config
          { new dir with counter := scanExistingSegments dir } now with
      | none =>
          have sameState : initializeWal .segment config (new dir) now =
              rotateSegment .segment config
                { new dir with counter := scanExistingSegments dir } now := by
            simp only [initializeWal, new] at reuse ⊢
            rw [reuse]
            rfl
          rw [sameState]
          exact rotated
      | some m =>
          have sameState :
              initializeWal .segment config (new dir) now = m := by
            simp only [initializeWal, new] at reuse ⊢
            rw [reuse]
            rfl
          rw [sameState]
          exact tryReuse_opens onDisk reuse

/-- What a fresh manager reads from a directory that sessions have left. -/
theorem readEntriesFromDisk_onDisk
    {dir : List WalFile} (onDisk : OnDisk engine dir) :
    readEntriesFromDisk engine config dir =
      .ok (sortByTimestamp (recovered engine config dir)) := by
  cases dir with
  | nil => cases engine <;> rfl
  | cons file dir =>
      cases engine with
      | frame =>
          simp [readEntriesFromDisk, FrameWalManager.readEntriesFromDisk,
            sortById_eq_self onDisk.ascending, recovered]
      | segment =>
          have readable : ∃ entries, FileEngine.segment.readEntries
              config.segmentSize file.content = .ok entries := by
            have headed := onDisk.headed file (by simp)
            by_cases short : file.content.length < 17
            · exact ⟨[], by
                simp [FileEngine.readEntries, WALSegment.readEntries, short]⟩
            · have magic := headed (Nat.le_of_not_lt short)
              simp only [FileEngine.readEntries, WALSegment.readEntries,
                short, magic, if_false, ne_eq, not_true_eq_false]
              exact ⟨_, rfl⟩
          obtain ⟨entries, readable⟩ := readable
          exact readEntriesFromDisk_eq onDisk.ascending
            (List.mem_cons_self ..) readable

end FileWal

end F4kvsLsm
