import F4kvsLsm.Wal.FileWal

/-!
# What the file log managers keep

An open manager appends to the last file of its directory, and that file is a
header followed by whole readable records.  `recovered` is what the files of a
directory add up to.  Rotation leaves it alone, and a write that satisfies the
size conditions adds its entries at the end.
-/

namespace F4kvsLsm

open ByteCodec

def records (entries : List WALEntry) : Bytes :=
  frames (entries.map WALEntry.encode)

@[simp]
theorem records_nil : records [] = [] := rfl

theorem records_append (front back : List WALEntry) :
    records (front ++ back) = records front ++ records back := by
  simp [records]

theorem records_cons (entry : WALEntry) (entries : List WALEntry) :
    records (entry :: entries) = frame entry.encode ++ records entries := by
  simp [records]

theorem records_singleton (entry : WALEntry) :
    records [entry] = frame entry.encode := by
  simp [records]

namespace FileEngine

/-- The sizes that the reader of a backend takes for a record. -/
def accepts : FileEngine → Nat → Nat → Bool
  | .segment, maxSize => fun size => size ≤ maxSize
  | .frame, _ => fun _ => true

/-- A record that is read back wherever it stands in a file. -/
structure Storable
    (engine : FileEngine) (maxSize : Nat) (entry : WALEntry) : Prop where
  fits : entry.encode.length < 2 ^ 32
  accepted : engine.accepts maxSize entry.encode.length = true
  notJson : entry.holdsJson = false

structure Headed (engine : FileEngine) (header : Bytes) : Prop where
  size : header.length = engine.headerSize
  magic : header.take 4 = engine.magic

/-- A header, then whole records that are read back. -/
def Clean (engine : FileEngine) (maxSize : Nat)
    (content : Bytes) (entries : List WALEntry) : Prop :=
  ∃ header, engine.Headed header ∧ content = header ++ records entries ∧
    ∀ entry ∈ entries, engine.Storable maxSize entry

section

variable {engine : FileEngine} {maxSize : Nat}

theorem headed_encodeHeader (header : WALSegmentHeader) :
    engine.Headed (engine.encodeHeader header) :=
  ⟨engine.encodeHeader_length header, engine.encodeHeader_take header⟩

theorem Storable.framable
    {entry : WALEntry} (storable : engine.Storable maxSize entry) :
    Framable (engine.accepts maxSize) entry.encode :=
  ⟨entry.encode_length_ne_zero, storable.fits, storable.accepted⟩

theorem Storable.deserialize_encode
    {entry : WALEntry} (storable : engine.Storable maxSize entry) :
    deserialize WALEntry.decode entry.encode = some entry := by
  have bound : entry.encode.length < 2 ^ 64 :=
    lt_trans storable.fits (by norm_num)
  rw [WALEntry.deserialize_encode (WALEntry.fits_of_encode_length bound),
    storable.notJson]
  rfl

theorem decode_bodies
    {entries : List WALEntry}
    (storable : ∀ entry ∈ entries, engine.Storable maxSize entry) :
    (entries.map WALEntry.encode).filterMap
      (deserialize WALEntry.decode) = entries := by
  induction entries with
  | nil => rfl
  | cons entry entries inductionHypothesis =>
      have front := storable entry (by simp)
      have back := inductionHypothesis
        (fun other member => storable other (by simp [member]))
      simp only [List.map_cons, List.filterMap_cons,
        front.deserialize_encode, back]

private theorem framable_bodies
    {entries : List WALEntry}
    (storable : ∀ entry ∈ entries, engine.Storable maxSize entry) :
    ∀ body ∈ entries.map WALEntry.encode,
      Framable (engine.accepts maxSize) body := by
  intro body member
  obtain ⟨entry, entryMember, rfl⟩ := List.mem_map.mp member
  exact (storable entry entryMember).framable

theorem readEntries_append
    {header tail : Bytes} {entries : List WALEntry} {reason : ScanEnd}
    (headed : engine.Headed header)
    (storable : ∀ entry ∈ entries, engine.Storable maxSize entry)
    (noBody : scanFrames (engine.accepts maxSize) tail = ([], reason)) :
    engine.readEntries maxSize (header ++ records entries ++ tail) =
      if engine = .frame ∧ reason = .shortBody then
        .error (.io "early eof")
      else .ok entries := by
  have scanned := scanFrames_frames_append (framable_bodies storable) tail
  rw [noBody, List.append_nil] at scanned
  change scanFrames _ (records entries ++ tail) = _ at scanned
  have decoded := decode_bodies storable
  have long : ¬ (header ++ records entries ++ tail).length <
      engine.headerSize := by
    simp [headed.size]
  have magic : (header ++ records entries ++ tail).take 4 = engine.magic := by
    rw [List.append_assoc, List.take_append_of_le_length
      (by rw [headed.size]; exact engine.four_le_headerSize), headed.magic]
  have body : (header ++ records entries ++ tail).drop engine.headerSize =
      records entries ++ tail := by
    rw [List.append_assoc, ← headed.size, List.drop_left]
  cases engine with
  | segment =>
      simp only [headerSize] at long body
      simp only [accepts] at scanned
      simp only [readEntries, WALSegment.readEntries, if_neg long, magic,
        ne_eq, not_true_eq_false, if_false, body, scanned, decoded,
        reduceCtorEq, false_and]
  | frame =>
      simp only [headerSize] at long body
      simp only [accepts] at scanned
      simp only [readEntries, FrameWalSegment.readEntries, if_neg long,
        magic, ne_eq, not_true_eq_false, if_false, body, scanned, true_and]
      cases reason <;> simp [decoded]

theorem Clean.readEntries
    {content : Bytes} {entries : List WALEntry}
    (clean : engine.Clean maxSize content entries) :
    engine.readEntries maxSize content = .ok entries := by
  obtain ⟨header, headed, rfl, storable⟩ := clean
  have read := readEntries_append headed storable
    (scanFrames_nil : scanFrames (engine.accepts maxSize) [] = _)
  simpa using read

theorem Clean.entriesOf
    {file : WalFile} {entries : List WALEntry}
    (clean : engine.Clean maxSize file.content entries) :
    engine.entriesOf maxSize file = entries := by
  simp [FileEngine.entriesOf, clean.readEntries]

theorem Clean.append
    {content : Bytes} {entries added : List WALEntry}
    (clean : engine.Clean maxSize content entries)
    (storable : ∀ entry ∈ added, engine.Storable maxSize entry) :
    engine.Clean maxSize (content ++ records added) (entries ++ added) := by
  obtain ⟨header, headed, rfl, stored⟩ := clean
  refine ⟨header, headed, ?_, ?_⟩
  · rw [records_append, List.append_assoc]
  · intro entry member
    rcases List.mem_append.mp member with old | new
    · exact stored entry old
    · exact storable entry new

theorem overwrite_drop
    {header content : Bytes} (size : header.length = engine.headerSize) :
    (FileWal.overwrite header content).drop engine.headerSize =
      content.drop engine.headerSize := by
  rw [FileWal.overwrite, ← size, List.drop_left]

/-- Writing the header again keeps the records. -/
theorem Clean.overwrite
    {content : Bytes} {entries : List WALEntry}
    (clean : engine.Clean maxSize content entries)
    (header : WALSegmentHeader) :
    engine.Clean maxSize
      (FileWal.overwrite (engine.encodeHeader header) content) entries := by
  obtain ⟨old, headed, rfl, stored⟩ := clean
  refine ⟨engine.encodeHeader header, headed_encodeHeader header, ?_, stored⟩
  rw [FileWal.overwrite, engine.encodeHeader_length, ← headed.size,
    List.drop_left]

theorem Clean.headerSize_le
    {content : Bytes} {entries : List WALEntry}
    (clean : engine.Clean maxSize content entries) :
    engine.headerSize ≤ content.length := by
  obtain ⟨header, headed, rfl, -⟩ := clean
  simp [headed.size]

end

end FileEngine

/-! ## Directories -/

namespace FileWal

variable {engine : FileEngine} {config : WalConfig}

/-- Files in the order of their numbers. -/
def Ascending (dir : List WalFile) : Prop :=
  dir.Pairwise fun a b => a.id < b.id

/-- What the files of a directory add up to, in listing order. -/
def recovered (engine : FileEngine) (config : WalConfig)
    (dir : List WalFile) : List WALEntry :=
  dir.flatMap (engine.entriesOf config.segmentSize)

@[simp]
theorem recovered_append (front back : List WalFile) :
    recovered engine config (front ++ back) =
      recovered engine config front ++ recovered engine config back := by
  simp [recovered]

@[simp]
theorem recovered_singleton (file : WalFile) :
    recovered engine config [file] =
      engine.entriesOf config.segmentSize file := by
  simp [recovered]

theorem sortById_eq_self
    {dir : List WalFile} (ascending : Ascending dir) :
    sortById dir = dir :=
  List.Pairwise.insertionSort_eq
    (ascending.imp fun less => Nat.le_of_lt less)

theorem readEntriesFromDisk_eq
    {dir : List WalFile} (ascending : Ascending dir)
    {file : WalFile} (member : file ∈ dir) {entries : List WALEntry}
    (readable :
      engine.readEntries config.segmentSize file.content = .ok entries) :
    readEntriesFromDisk engine config dir =
      .ok (sortByTimestamp (recovered engine config dir)) := by
  cases engine with
  | frame =>
      simp [readEntriesFromDisk, FrameWalManager.readEntriesFromDisk,
        sortById_eq_self ascending, recovered]
  | segment =>
      have silent : readErrorOf config.segmentSize file = none := by
        change WALSegment.readEntries config.segmentSize file.content =
          .ok entries at readable
        simp [readErrorOf, readable]
      have fewer :
          (dir.filterMap (readErrorOf config.segmentSize)).length ≠
            dir.length := by
        intro equality
        have all := List.filterMap_length_eq_length.mp equality
        simpa [silent] using all file member
      simp [readEntriesFromDisk, WALManager.readEntriesFromDisk,
        sortById_eq_self ascending, recovered, fewer]

theorem updateFile_append_singleton
    {older : List WalFile} {last : WalFile}
    (ascending : Ascending (older ++ [last])) (change : Bytes → Bytes) :
    updateFile (older ++ [last]) last.id change =
      older ++ [{ last with content := change last.content }] := by
  have different : ∀ file ∈ older, file.id ≠ last.id := by
    intro file member
    have less := (List.pairwise_append.mp ascending).2.2 file member last
      (by simp)
    omega
  have kept : updateFile older last.id change = older :=
    calc updateFile older last.id change
        = older.map id :=
          List.map_congr_left fun file member =>
            if_neg (different file member)
      _ = older := List.map_id older
  rw [updateFile, List.map_append]
  change updateFile older last.id change ++ _ = _
  rw [kept]
  simp

theorem find?_append_singleton
    {older : List WalFile} {last : WalFile}
    (ascending : Ascending (older ++ [last])) :
    (older ++ [last]).find? (fun file => file.id = last.id) = some last := by
  have absent : older.find? (fun file => file.id = last.id) = none := by
    rw [List.find?_eq_none]
    intro file member
    have less := (List.pairwise_append.mp ascending).2.2 file member last
      (by simp)
    simpa using Nat.ne_of_lt less
  simp [List.find?_append, absent]

theorem fileLen_append_singleton
    {older : List WalFile} {last : WalFile}
    (ascending : Ascending (older ++ [last])) :
    fileLen (older ++ [last]) last.id = last.content.length := by
  rw [fileLen, find?_append_singleton ascending]

/-- A file with a whole header has the right one. -/
def HeadedFile (engine : FileEngine) (file : WalFile) : Prop :=
  engine.headerSize ≤ file.content.length →
    file.content.take 4 = engine.magic

/-- A directory that sessions of one backend have left behind. -/
structure OnDisk (engine : FileEngine) (dir : List WalFile) : Prop where
  ascending : Ascending dir
  headed : ∀ file ∈ dir, HeadedFile engine file

theorem onDisk_nil {engine : FileEngine} : OnDisk engine [] :=
  ⟨List.Pairwise.nil, fun _ member => absurd member List.not_mem_nil⟩

/-- Every record byte of `dir` is still in its place in `dir'`. -/
def Extends (engine : FileEngine) (dir dir' : List WalFile) : Prop :=
  ∀ file ∈ dir, ∃ file' ∈ dir', file'.id = file.id ∧
    file.content.drop engine.headerSize <+:
      file'.content.drop engine.headerSize

theorem Extends.refl (dir : List WalFile) : Extends engine dir dir :=
  fun file member => ⟨file, member, rfl, List.prefix_rfl⟩

theorem Extends.trans
    {first second third : List WalFile}
    (early : Extends engine first second)
    (late : Extends engine second third) :
    Extends engine first third := by
  intro file member
  obtain ⟨file', member', sameId, extended⟩ := early file member
  obtain ⟨file'', member'', sameId', extended'⟩ := late file' member'
  exact ⟨file'', member'', sameId'.trans sameId, extended.trans extended'⟩

theorem Extends.append_right
    (dir added : List WalFile) : Extends engine dir (dir ++ added) :=
  fun file member =>
    ⟨file, List.mem_append_left _ member, rfl, List.prefix_rfl⟩

theorem extends_last
    {older : List WalFile} {last last' : WalFile}
    (sameId : last'.id = last.id)
    (extended : last.content.drop engine.headerSize <+:
      last'.content.drop engine.headerSize) :
    Extends engine (older ++ [last]) (older ++ [last']) := by
  intro file member
  rcases List.mem_append.mp member with old | new
  · exact ⟨file, List.mem_append_left _ old, rfl, List.prefix_rfl⟩
  · rw [List.mem_singleton] at new
    subst new
    exact ⟨last', by simp, sameId, extended⟩

theorem ascending_replace_last
    {older : List WalFile} {last last' : WalFile}
    (ascending : Ascending (older ++ [last]))
    (sameId : last'.id = last.id) :
    Ascending (older ++ [last']) := by
  unfold Ascending at *
  simp only [List.pairwise_append, List.pairwise_singleton, true_and,
    List.mem_singleton, forall_eq, sameId] at ascending ⊢
  exact ascending

theorem ascending_lt_last
    {older : List WalFile} {last : WalFile}
    (ascending : Ascending (older ++ [last])) :
    ∀ file ∈ older, file.id < last.id := by
  intro file member
  exact (List.pairwise_append.mp ascending).2.2 file member last
    (List.mem_singleton_self last)

theorem ascending_append_singleton
    {dir : List WalFile} {file : WalFile}
    (ascending : Ascending dir) (above : ∀ other ∈ dir, other.id < file.id) :
    Ascending (dir ++ [file]) := by
  unfold Ascending at *
  simp only [List.pairwise_append, List.pairwise_singleton, true_and,
    List.mem_singleton, forall_eq]
  exact ⟨ascending, above⟩

theorem Clean.headedFile
    {file : WalFile} {entries : List WALEntry}
    (clean : engine.Clean config.segmentSize file.content entries) :
    HeadedFile engine file := by
  intro _
  obtain ⟨header, headed, content, -⟩ := clean
  rw [content, List.take_append_of_le_length
    (by rw [headed.size]; exact engine.four_le_headerSize), headed.magic]

/-- The state of an open manager: it appends to the last file, which holds
`own`, and knows the next free number. -/
structure Layout (engine : FileEngine) (config : WalConfig) (m : FileWal)
    (older : List WalFile) (last : WalFile) (own : List WALEntry) : Prop where
  dir : m.dir = older ++ [last]
  ascending : Ascending (older ++ [last])
  headed : ∀ file ∈ older, HeadedFile engine file
  current : ∃ header, m.current = some ⟨last.id, header⟩
  counter : m.counter = last.id + 1
  tracked : ∀ closed ∈ m.segments, closed.2 < last.id
  clean : engine.Clean config.segmentSize last.content own

/-- An open manager in some layout. -/
def Ready (engine : FileEngine) (config : WalConfig) (m : FileWal) : Prop :=
  ∃ older last own, Layout engine config m older last own

/-- `m'` is open, holds what `m` held followed by `added`, and has kept every
record byte. -/
structure Grows (engine : FileEngine) (config : WalConfig) (m m' : FileWal)
    (added : List WALEntry) : Prop where
  ready : Ready engine config m'
  recovered : recovered engine config m'.dir =
    recovered engine config m.dir ++ added
  kept : Extends engine m.dir m'.dir

theorem Grows.trans
    {first second third : FileWal} {early late : List WALEntry}
    (one : Grows engine config first second early)
    (two : Grows engine config second third late) :
    Grows engine config first third (early ++ late) := by
  refine ⟨two.ready, ?_, one.kept.trans two.kept⟩
  rw [two.recovered, one.recovered, List.append_assoc]

section

variable {m : FileWal} {older : List WalFile} {last : WalFile}
variable {own : List WALEntry}

theorem Layout.recovered_eq (layout : Layout engine config m older last own) :
    recovered engine config m.dir = recovered engine config older ++ own := by
  rw [layout.dir, recovered_append, recovered_singleton,
    layout.clean.entriesOf]

theorem Layout.onDisk (layout : Layout engine config m older last own) :
    OnDisk engine m.dir := by
  rw [layout.dir]
  refine ⟨layout.ascending, ?_⟩
  intro file member
  rcases List.mem_append.mp member with old | new
  · exact layout.headed file old
  · rw [List.mem_singleton] at new
    subst new
    exact Clean.headedFile layout.clean

/-- The manager after its last file has changed in place. -/
theorem Layout.change_last
    (layout : Layout engine config m older last own)
    (change : Bytes → Bytes) {own' : List WALEntry}
    (clean : engine.Clean config.segmentSize (change last.content) own')
    (header : WALSegmentHeader) :
    Layout engine config
      { m with
        dir := updateFile m.dir last.id change
        current := some ⟨last.id, header⟩ }
      older { last with content := change last.content } own' := by
  have changed :
      updateFile m.dir last.id change =
        older ++ [{ last with content := change last.content }] := by
    rw [layout.dir]
    exact updateFile_append_singleton layout.ascending _
  exact ⟨changed, ascending_replace_last layout.ascending rfl,
    layout.headed, ⟨header, rfl⟩, layout.counter, layout.tracked, clean⟩

theorem Layout.fileLen_eq
    (layout : Layout engine config m older last own) :
    fileLen m.dir last.id = last.content.length := by
  rw [layout.dir]
  exact fileLen_append_singleton layout.ascending

theorem Layout.grows
    {m' : FileWal} {last' : WalFile} {added : List WALEntry}
    (layout : Layout engine config m older last own)
    (layout' : Layout engine config m' older last' (own ++ added))
    (sameId : last'.id = last.id)
    (extended : last.content.drop engine.headerSize <+:
      last'.content.drop engine.headerSize) :
    Grows engine config m m' added := by
  refine ⟨⟨older, last', own ++ added, layout'⟩, ?_, ?_⟩
  · rw [layout.recovered_eq, layout'.recovered_eq, List.append_assoc]
  · rw [layout.dir, layout'.dir]
    exact extends_last sameId extended

theorem drop_append_keeps
    {content tail : Bytes}
    (long : engine.headerSize ≤ content.length) :
    content.drop engine.headerSize <+:
      (content ++ tail).drop engine.headerSize := by
  rw [List.drop_append_of_le_length long]
  exact List.prefix_append _ _

/-! ### Rotation -/

/-- The file that a rotation starts. -/
def freshFile (engine : FileEngine) (config : WalConfig) (id : Nat)
    (now : UInt64) : WalFile :=
  ⟨id, now, engine.encodeHeader (newHeader config now)⟩

theorem clean_freshFile (id : Nat) (now : UInt64) :
    engine.Clean config.segmentSize
      (freshFile engine config id now).content [] :=
  ⟨engine.encodeHeader (newHeader config now),
    FileEngine.headed_encodeHeader _, by simp [freshFile], by simp⟩

theorem newSegment_eq
    {dir : List WalFile} {id : Nat} (ascending : Ascending dir)
    (above : ∀ file ∈ dir, file.id < id) (now : UInt64) :
    newSegment engine config dir id now =
      (dir ++ [freshFile engine config id now],
        ⟨id, newHeader config now⟩) := by
  have absent : dir.any (fun file => file.id = id) = false := by
    rw [List.any_eq_false]
    intro file member
    simpa using Nat.ne_of_lt (above file member)
  have created :
      updateFile (dir ++ [⟨id, now, []⟩]) id
          (overwrite (engine.encodeHeader (newHeader config now))) =
        dir ++ [freshFile engine config id now] := by
    have updated := updateFile_append_singleton
      (ascending_append_singleton ascending above :
        Ascending (dir ++ [⟨id, now, []⟩]))
      (overwrite (engine.encodeHeader (newHeader config now)))
    simpa [overwrite, freshFile] using updated
  simp [newSegment, absent, writeHeader, created]

/-- Opening a new file behind a directory. -/
theorem rotateSegment_layout_of_closed
    {dir : List WalFile} {segments : List (Nat × Nat)} {counter : Nat}
    (onDisk : OnDisk engine dir)
    (above : ∀ file ∈ dir, file.id < counter)
    (tracked : ∀ closed ∈ segments, closed.2 < counter) (now : UInt64) :
    Layout engine config
      (rotateSegment engine config ⟨dir, none, segments, counter⟩ now)
      dir (freshFile engine config counter now) [] := by
  simp only [rotateSegment, newSegment_eq onDisk.ascending above]
  exact ⟨rfl, ascending_append_singleton onDisk.ascending above,
    onDisk.headed, ⟨_, rfl⟩, rfl, tracked, clean_freshFile counter now⟩

/-- The last file after its header has been written again. -/
def closedFile (engine : FileEngine) (header : WALSegmentHeader)
    (file : WalFile) : WalFile :=
  { file with content := overwrite (engine.encodeHeader header) file.content }

theorem rotateSegment_layout
    {header : WALSegmentHeader}
    (layout : Layout engine config m older last own)
    (current : m.current = some ⟨last.id, header⟩) (now : UInt64) :
    Layout engine config (rotateSegment engine config m now)
      (older ++ [closedFile engine header last])
      (freshFile engine config m.counter now) [] := by
  have closed := layout.change_last
    (overwrite (engine.encodeHeader header))
    (layout.clean.overwrite header) header
  have closedDir := closed.dir
  have onDisk := closed.onDisk
  simp only at closedDir onDisk
  rw [closedDir] at onDisk
  have above : ∀ file ∈ older ++ [closedFile engine header last],
      file.id < m.counter := by
    intro file member
    rw [layout.counter]
    rcases List.mem_append.mp member with old | new
    · have less := ascending_lt_last layout.ascending file old
      omega
    · rw [List.mem_singleton] at new
      simp [new, closedFile]
  have tracked : ∀ entry ∈ m.segments ++ [(m.counter, last.id)],
      entry.2 < m.counter := by
    intro entry member
    rw [layout.counter]
    rcases List.mem_append.mp member with old | new
    · have less := layout.tracked entry old
      omega
    · rw [List.mem_singleton] at new
      simp [new]
  have sameState : rotateSegment engine config m now =
      rotateSegment engine config
        ⟨older ++ [closedFile engine header last],
          none, m.segments ++ [(m.counter, last.id)], m.counter⟩ now := by
    simp only [rotateSegment, current, writeHeader, closedDir, closedFile]
  rw [sameState]
  exact rotateSegment_layout_of_closed onDisk above tracked now

/-- Rotation keeps what the directory adds up to. -/
theorem rotateSegment_grows
    (ready : Ready engine config m) (now : UInt64) :
    Grows engine config m (rotateSegment engine config m now) [] := by
  obtain ⟨older, last, own, layout⟩ := ready
  obtain ⟨header, current⟩ := layout.current
  have rotated := rotateSegment_layout layout current now
  have closedClean : engine.Clean config.segmentSize
      (closedFile engine header last).content own :=
    layout.clean.overwrite header
  refine ⟨⟨_, _, _, rotated⟩, ?_, ?_⟩
  · rw [rotated.recovered_eq, layout.recovered_eq, recovered_append,
      recovered_singleton, closedClean.entriesOf]
  · rw [layout.dir, rotated.dir]
    refine Extends.trans ?_ (Extends.append_right _ _)
    refine extends_last rfl ?_
    simp only [closedFile,
      FileEngine.overwrite_drop (engine.encodeHeader_length _),
      List.prefix_rfl]

end

end FileWal

end F4kvsLsm
