import F4kvsLsm.Wal.Handle

/-!
# Sessions that end in a crash

A session opens the log, makes calls, and stops with the record or the file
that is being written cut short.  After any number of such sessions a fresh
manager reads the entries of all acknowledged calls, provided that the torn
write is one that the reader of the backend gets over:

* the segment backend gets over every torn record and header,
* the frame backend drops a whole file whose last record is cut in its body,
* the indexed backend fails on a frame file that is shorter than a frame.
-/

namespace F4kvsLsm

open ByteCodec

/-- Where in the writing of a file a crash comes.  A record of the indexed
backend is a frame file, and its segments have no header. -/
inductive CrashPoint where
  | between
  | tornRecord (entry : WALEntry) (cut : Nat)
  | tornHeader (now : UInt64) (cut : Nat)
  | rotated (now : UInt64) (point : CrashPoint)

namespace FileWal

variable {engine : FileEngine} {config : WalConfig}

/-- What a crash leaves in the directory of an open manager. -/
def crashDir (engine : FileEngine) (config : WalConfig) (m : FileWal) :
    CrashPoint → List WalFile
  | .between => m.dir
  | .tornRecord entry cut =>
      match m.current with
      | some segment =>
          updateFile m.dir segment.id (· ++ (frame entry.encode).take cut)
      | none => m.dir
  | .tornHeader now cut =>
      (flush engine m).dir ++
        [⟨m.counter, now,
          (engine.encodeHeader (newHeader config now)).take cut⟩]
  | .rotated now point =>
      crashDir engine config (rotateSegment engine config m now) point

/-- The open file has no record yet. -/
def NoRecord (engine : FileEngine) (m : FileWal) : Prop :=
  ∀ segment, m.current = some segment →
    fileLen m.dir segment.id = engine.headerSize

/-- The torn writes that the reader of a backend gets over. -/
def Tolerated (engine : FileEngine) (config : WalConfig) (m : FileWal) :
    CrashPoint → Prop
  | .between => True
  | .tornRecord entry cut =>
      Writable engine config entry ∧ cut < (frame entry.encode).length ∧
        (engine = .frame → cut < 4 ∨ NoRecord engine m)
  | .tornHeader _ cut => cut < engine.headerSize
  | .rotated now point =>
      Tolerated engine config (rotateSegment engine config m now) point

/-- A crash while the first file of a session is being created. -/
def openingTorn (engine : FileEngine) (config : WalConfig)
    (dir : List WalFile) (now : UInt64) (cut : Nat) : List WalFile :=
  dir ++ [⟨scanExistingSegments dir, now,
    (engine.encodeHeader (newHeader config now)).take cut⟩]

/-- `dir'` holds what `dir` holds, with every record byte in its place. -/
structure Survives (engine : FileEngine) (config : WalConfig)
    (dir dir' : List WalFile) : Prop where
  onDisk : OnDisk engine dir'
  recovered : recovered engine config dir' = recovered engine config dir
  kept : Extends engine dir dir'

theorem entriesOf_short
    {file : WalFile} (short : file.content.length < engine.headerSize) :
    engine.entriesOf config.segmentSize file = [] := by
  cases engine with
  | segment =>
      have short : file.content.length < 17 := short
      simp [FileEngine.entriesOf, FileEngine.readEntries,
        WALSegment.readEntries, short]
  | frame =>
      have short : file.content.length < 21 := short
      simp [FileEngine.entriesOf, FileEngine.readEntries,
        FrameWalSegment.readEntries, short]

theorem tornHeader_survives
    {dir : List WalFile} {file : WalFile} (onDisk : OnDisk engine dir)
    (above : ∀ other ∈ dir, other.id < file.id)
    (short : file.content.length < engine.headerSize) :
    Survives engine config dir (dir ++ [file]) := by
  refine ⟨⟨ascending_append_singleton onDisk.ascending above, ?_⟩, ?_,
    Extends.append_right _ _⟩
  · intro other member
    rcases List.mem_append.mp member with old | new
    · exact onDisk.headed other old
    · rw [List.mem_singleton] at new
      subst new
      intro long
      omega
  · rw [recovered_append, recovered_singleton, entriesOf_short short,
      List.append_nil]

theorem entriesOf_torn
    {file : WalFile} {own : List WALEntry} {entry : WALEntry} {cut : Nat}
    (clean : engine.Clean config.segmentSize file.content own)
    (storable : engine.Storable config.segmentSize entry)
    (strict : cut < (frame entry.encode).length)
    (readable : engine = .frame → cut < 4 ∨
      file.content.length = engine.headerSize) :
    engine.entriesOf config.segmentSize
      { file with
        content := file.content ++ (frame entry.encode).take cut } = own := by
  obtain ⟨header, headed, content, stored⟩ := clean
  have read := FileEngine.readEntries_append headed stored
    (scanFrames_take_frame storable.framable strict)
  rw [← content] at read
  by_cases lost : engine = .frame ∧
      (if cut < 4 then ScanEnd.shortLength else .shortBody) = .shortBody
  · rw [if_pos lost] at read
    have long : ¬ cut < 4 := by
      intro short
      simp [short] at lost
    have bare : file.content.length = engine.headerSize :=
      (readable lost.1).resolve_left long
    have nothing : own = [] := by
      have size := congrArg List.length content
      rw [bare, List.length_append, headed.size] at size
      have empty : records own = [] :=
        List.eq_nil_of_length_eq_zero (by omega)
      exact (IndexedWalSegment.records_eq_nil_iff own).mp empty
    simp [FileEngine.entriesOf, read, nothing]
  · rw [if_neg lost] at read
    simp [FileEngine.entriesOf, read]

theorem tornRecord_survives
    {m : FileWal} {entry : WALEntry} {cut : Nat}
    (ready : Ready engine config m)
    (tolerated : Tolerated engine config m (.tornRecord entry cut)) :
    Survives engine config m.dir
      (crashDir engine config m (.tornRecord entry cut)) := by
  obtain ⟨writable, strict, readable⟩ := tolerated
  obtain ⟨older, last, own, layout⟩ := ready
  obtain ⟨header, current⟩ := layout.current
  have readable : engine = .frame → cut < 4 ∨
      last.content.length = engine.headerSize := by
    intro isFrame
    refine (readable isFrame).imp_right fun bare => ?_
    rw [← layout.fileLen_eq]
    exact bare _ current
  have torn := entriesOf_torn layout.clean writable.storable strict readable
  have changed := updateFile_append_singleton layout.ascending
    (· ++ (frame entry.encode).take cut)
  have dirAfter : crashDir engine config m (.tornRecord entry cut) =
      older ++ [{ last with
        content := last.content ++ (frame entry.encode).take cut }] := by
    simp only [crashDir, current, layout.dir]
    exact changed
  rw [dirAfter]
  refine ⟨⟨ascending_replace_last layout.ascending rfl, ?_⟩, ?_, ?_⟩
  · intro file member
    rcases List.mem_append.mp member with old | new
    · exact layout.headed file old
    · rw [List.mem_singleton] at new
      subst new
      intro _
      rw [List.take_append_of_le_length
        (engine.four_le_headerSize.trans layout.clean.headerSize_le)]
      exact Clean.headedFile layout.clean layout.clean.headerSize_le
  · rw [recovered_append, recovered_singleton, torn, layout.recovered_eq]
  · rw [layout.dir]
    exact extends_last rfl (drop_append_keeps layout.clean.headerSize_le)

theorem Ready.above
    {m : FileWal} (ready : Ready engine config m) :
    ∀ file ∈ m.dir, file.id < m.counter := by
  obtain ⟨older, last, own, layout⟩ := ready
  intro file member
  rw [layout.dir] at member
  rw [layout.counter]
  rcases List.mem_append.mp member with old | new
  · have less := ascending_lt_last layout.ascending file old
    omega
  · rw [List.mem_singleton] at new
    rw [new]
    omega

theorem Ready.onDisk
    {m : FileWal} (ready : Ready engine config m) : OnDisk engine m.dir := by
  obtain ⟨older, last, own, layout⟩ := ready
  exact layout.onDisk

theorem take_headerSize_short
    (header : WALSegmentHeader) {cut : Nat}
    (strict : cut < engine.headerSize) :
    ((engine.encodeHeader header).take cut).length < engine.headerSize := by
  rw [List.length_take]
  exact lt_of_le_of_lt (Nat.min_le_left _ _) strict

theorem crash_survives
    {m : FileWal} {point : CrashPoint} (ready : Ready engine config m)
    (tolerated : Tolerated engine config m point) :
    Survives engine config m.dir (crashDir engine config m point) := by
  induction point generalizing m with
  | between => exact ⟨ready.onDisk, rfl, Extends.refl _⟩
  | tornRecord entry cut => exact tornRecord_survives ready tolerated
  | tornHeader now cut =>
      have flushed := flush_grows ready
      have sameCounter : (flush engine m).counter = m.counter := by
        cases current : m.current <;> simp only [flush, current]
      have above := flushed.ready.above
      rw [sameCounter] at above
      have survives : Survives engine config (flush engine m).dir
          ((flush engine m).dir ++
            [⟨m.counter, now,
              (engine.encodeHeader (newHeader config now)).take cut⟩]) :=
        tornHeader_survives flushed.ready.onDisk above
          (take_headerSize_short _ tolerated)
      refine ⟨survives.onDisk, ?_, flushed.kept.trans survives.kept⟩
      rw [crashDir, survives.recovered, flushed.recovered, List.append_nil]
  | rotated now point inductionHypothesis =>
      have rotation := rotateSegment_grows ready now
      have survives := inductionHypothesis rotation.ready tolerated
      refine ⟨survives.onDisk, ?_, rotation.kept.trans survives.kept⟩
      rw [crashDir, survives.recovered, rotation.recovered, List.append_nil]

theorem openingTorn_survives
    {dir : List WalFile} (onDisk : OnDisk engine dir) (now : UInt64)
    {cut : Nat} (strict : cut < engine.headerSize) :
    Survives engine config dir (openingTorn engine config dir now cut) :=
  tornHeader_survives onDisk (scanExistingSegments_above dir)
    (take_headerSize_short _ strict)

end FileWal

namespace IndexedWal

open IndexedWalSegment

variable {config : WalConfig}

/-- The next frame file of the active segment as far as it was written. -/
def tornFrame (config : WalConfig) (active : ActiveSegment)
    (entry : WALEntry) (cut : Nat) : IndexedDisk :=
  putFrameFile active.disk active.segment.segmentId
    active.segment.stagingFrame
    ((frameFile config (encodeEntry entry)).take cut)

/-- What a crash leaves on the disk of an open manager. -/
def crashDisk (config : WalConfig) (m : IndexedWal) :
    CrashPoint → IndexedDisk
  | .between => m.disk
  | .tornRecord entry cut =>
      match m.active with
      | some active => tornFrame config active entry cut
      | none => m.disk
  | .tornHeader now _ =>
      { m.disk with dirs := m.disk.dirs ++ [⟨m.counter, now, []⟩] }
  | .rotated now point =>
      match rotateSegment config m now with
      | .ok m => crashDisk config m point
      | .error _ => m.disk

/-- The torn frame files that a recovery gets over. -/
def Tolerated (config : WalConfig) (m : IndexedWal) : CrashPoint → Prop
  | .between => True
  | .tornRecord entry cut =>
      Committable config entry ∧ frameSize config ≤ cut ∧
        cut < (frameFile config (encodeEntry entry)).length ∧
        -- a watermark of an earlier segment may name this frame number
        ∀ active, m.active = some active →
          active.segment.stagingFrame = active.latest.committedFrame →
            active.latest.committedOffset ≤ cut
  | .tornHeader _ _ => True
  | .rotated now point =>
      ∀ m', rotateSegment config m now = .ok m' → Tolerated config m' point

/-- A crash while the first segment of a session is being created. -/
def openingTorn (disk : IndexedDisk) (now : UInt64) : IndexedDisk :=
  { disk with
    root := true
    dirs := disk.dirs ++ [⟨scanExistingSegments (new disk), now, []⟩] }

/-- `disk'` holds what `disk` holds, in the same frame files. -/
structure Survives (config : WalConfig) (disk disk' : IndexedDisk) :
    Prop where
  onDisk : OnDisk config disk'
  recovered : disk'.recovered = disk.recovered
  kept : KeepsFrames disk.dirs disk'.dirs

/-- A new directory without frames behind the others. -/
theorem emptyDir_survives
    {disk : IndexedDisk} {dir : FramesDir} (onDisk : OnDisk config disk)
    (above : ∀ other ∈ disk.dirs, other.segmentId < dir.segmentId)
    (empty : dir.frames = []) {root : Bool} (present : root = true) :
    Survives config disk
      { disk with root := root, dirs := disk.dirs ++ [dir] } := by
  refine ⟨⟨ascendingDirs_append_singleton onDisk.ascending above, ?_, ?_,
    ?_⟩, ?_, keepsFrames_append_right _ _⟩
  · intro other member
    rcases List.mem_append.mp member with old | new
    · exact onDisk.dirsOk other old
    · rw [List.mem_singleton] at new
      subst new
      exact ⟨by simp [empty], by simp [empty], by simp [empty],
        by simp [empty]⟩
  · intro absent
    simp only [present] at absent
    exact absurd absent (by decide)
  · intro state latest
    obtain ⟨older, named, later, dirs, name, indexOk, below, unused⟩ :=
      onDisk.watermark state latest
    refine ⟨older, named, later ++ [dir], ?_, name, indexOk, below, ?_⟩
    · simp [dirs]
    · intro other member
      rcases List.mem_append.mp member with old | new
      · exact unused other old
      · rw [List.mem_singleton] at new
        exact new ▸ empty
  · simp [IndexedDisk.recovered, dirEntries, empty]

theorem decodeFrames_tornFrame
    {entry : WALEntry} {cut : Nat}
    (committable : Committable config entry)
    (long : frameSize config ≤ cut)
    (strict : cut < (frameFile config (encodeEntry entry)).length)
    (limit : Nat) :
    decodeFrames
      (((frameFile config (encodeEntry entry)).take cut).take limit) =
        .ok [] := by
  have whole : frameFile config (encodeEntry entry) =
      frame entry.encode := by
    simp only [frameFile, encodeEntry, List.length_append,
      List.length_replicate] at strict ⊢
    have none : frameSize config - (frame entry.encode).length = 0 := by
      omega
    rw [none, List.replicate_zero, List.append_nil]
  rw [whole] at strict ⊢
  rw [List.take_take]
  exact decodeFrames_torn committable.recordable.fits
    (lt_of_le_of_lt (Nat.min_le_right _ _) strict)

theorem tornFrame_survives
    {m : IndexedWal} {entry : WALEntry} {cut : Nat}
    (ready : Ready config m)
    (tolerated : Tolerated config m (.tornRecord entry cut)) :
    Survives config m.disk (crashDisk config m (.tornRecord entry cut)) := by
  obtain ⟨committable, long, strict, covered⟩ := tolerated
  obtain ⟨active, older, dir, later, layout⟩ := ready
  have segment := layout.segment
  have sameDisk := active_disk layout.opened
  have torn := decodeFrames_tornFrame committable long strict
  have size : ((frameFile config (encodeEntry entry)).take cut).length =
      cut := by
    rw [List.length_take, Nat.min_eq_left (Nat.le_of_lt strict)]
  have whole := torn cut
  rw [List.take_take, Nat.min_self] at whole
  have dirs := putFrameFile_dirs segment
    ((frameFile config (encodeEntry entry)).take cut)
  have diskAfter : crashDisk config m (.tornRecord entry cut) =
      tornFrame config active entry cut := by
    simp only [crashDisk, layout.opened]
  rw [diskAfter]
  refine ⟨⟨?_, ?_, ?_, ?_⟩, ?_, ?_⟩
  · rw [tornFrame, dirs]
    exact ascendingDirs_replace (replacedDir_name active dir _)
      segment.ascending
  · rw [tornFrame, dirs]
    exact dirsOk_replacedDir segment (by rw [size]; exact long) whole
  · intro absent
    change active.disk.root = false at absent
    rw [segment.root] at absent
    exact absurd absent (by decide)
  · intro state latest
    have read : active.disk.latest = some active.latest := by
      rw [IndexedDisk.latest, segment.index, Option.bind_some,
        segment.latest]
    change active.disk.latest = some state at latest
    rw [read, Option.some.injEq] at latest
    subst latest
    refine ⟨older, _, later, dirs,
      segment.name.trans segment.latestName.symm, ?_, ?_, segment.unused⟩
    · intro file member here positive
      rcases mem_replacedDir segment member with rfl | ⟨old, -⟩
      · rw [torn, whole, size]
        exact ⟨covered active layout.opened here, rfl⟩
      · exact segment.indexOk file old here positive
    · intro file member
      have link := segment.link
      rcases mem_replacedDir segment member with rfl | ⟨old, below⟩
      · by_cases covered :
            active.segment.stagingFrame ≤ active.latest.committedFrame
        · exact Or.inl covered
        · exact Or.inr ⟨by simp only; omega, whole⟩
      · left
        omega
  · rw [IndexedDisk.recovered, tornFrame, dirs, ← sameDisk,
      segment.recovered_eq, List.flatMap_append, List.flatMap_cons,
      dirEntries_later segment.unused, replacedDir_entries segment whole,
      List.append_nil, List.append_nil]
  · rw [tornFrame, dirs, layout.dirs]
    exact keepsFrames_replacedDir segment _

theorem Ready.onDisk
    {m : IndexedWal} (ready : Ready config m) : OnDisk config m.disk := by
  obtain ⟨active, older, dir, later, layout⟩ := ready
  exact layout.onDisk

theorem crash_survives
    {m : IndexedWal} {point : CrashPoint} (ready : Ready config m)
    (tolerated : Tolerated config m point) :
    Survives config m.disk (crashDisk config m point) := by
  induction point generalizing m with
  | between => exact ⟨ready.onDisk, rfl, KeepsFrames.refl _⟩
  | tornRecord entry cut => exact tornFrame_survives ready tolerated
  | tornHeader now cut =>
      obtain ⟨active, older, dir, later, layout⟩ := ready
      have present : m.disk.root = true := by
        rw [← active_disk layout.opened]
        exact layout.segment.root
      have survives : Survives config m.disk
          { m.disk with
            root := m.disk.root
            dirs := m.disk.dirs ++ [⟨m.counter, now, []⟩] } :=
        emptyDir_survives layout.onDisk layout.above rfl present
      exact survives
  | rotated now point inductionHypothesis =>
      obtain ⟨m', rotated, roomy, rotation⟩ := rotateSegment_grows ready now
      have survives :=
        inductionHypothesis rotation.ready (tolerated m' rotated)
      have diskAfter : crashDisk config m (.rotated now point) =
          crashDisk config m' point := by
        simp only [crashDisk, rotated]
      rw [diskAfter]
      refine ⟨survives.onDisk, ?_, rotation.kept.trans survives.kept⟩
      rw [survives.recovered, rotation.recovered, List.append_nil]

theorem openingTorn_survives
    {disk : IndexedDisk} (onDisk : OnDisk config disk) (now : UInt64) :
    Survives config disk (openingTorn disk now) := by
  have above := scanExistingSegments_above onDisk
  have survives : Survives config disk
      { disk with
        root := true
        dirs := disk.dirs ++
          [⟨scanExistingSegments (new disk), now, []⟩] } :=
    emptyDir_survives onDisk above rfl rfl
  exact survives

end IndexedWal

/-! ## Sessions of a backend -/

/-- A crash while the first file of a session is being created. -/
def WalDisk.openingTorn (config : WalConfig) (now : UInt64) (cut : Nat) :
    WalDisk → WalDisk
  | .segment dir => .segment (FileWal.openingTorn .segment config dir now cut)
  | .frame dir => .frame (FileWal.openingTorn .frame config dir now cut)
  | .indexed disk => .indexed (IndexedWal.openingTorn disk now)

/-- The header that an opening can leave cut short; the segments of the
indexed backend have none. -/
def WalDisk.headerSize : WalDisk → Nat
  | .segment _ => FileEngine.segment.headerSize
  | .frame _ => FileEngine.frame.headerSize
  | .indexed _ => 1

/-- `disk'` holds what `disk` holds, with its records in place. -/
structure WalDisk.Survives (config : WalConfig) (disk disk' : WalDisk) :
    Prop where
  onDisk : disk'.OnDisk config
  engine : disk'.engine = disk.engine
  recovered : disk'.recovered config = disk.recovered config
  kept : disk.Kept disk'

namespace WalHandle

def crashDisk (config : WalConfig) (handle : WalHandle)
    (point : CrashPoint) : WalDisk :=
  match handle with
  | .segment wal => .segment (FileWal.crashDir .segment config wal point)
  | .frame wal => .frame (FileWal.crashDir .frame config wal point)
  | .indexed wal => .indexed (IndexedWal.crashDisk config wal point)

/-- The torn writes that a recovery gets over. -/
def Tolerated (config : WalConfig) (handle : WalHandle)
    (point : CrashPoint) : Prop :=
  match handle with
  | .segment wal => FileWal.Tolerated .segment config wal point
  | .frame wal => FileWal.Tolerated .frame config wal point
  | .indexed wal => IndexedWal.Tolerated config wal point

end WalHandle

/-- One session from the disk it finds to the disk its crash leaves, with the
entries it has acknowledged. -/
inductive Session (config : WalConfig) :
    WalDisk → WalDisk → List WALEntry → Prop where
  | opening (disk : WalDisk) (now : UInt64) (cut : Nat)
      (strict : cut < disk.headerSize) :
      Session config disk (disk.openingTorn config now cut) []
  | writing (disk : WalDisk) (start : UInt64) (calls : List WalCall)
      (opened handle : WalHandle) (point : CrashPoint)
      (opens : disk.openWal config start = .ok opened)
      (ran : opened.runCalls config calls = .ok handle)
      (admissible : ∀ call ∈ calls,
        WalHandle.Admissible config disk.engine call)
      (tolerated : handle.Tolerated config point) :
      Session config disk (handle.crashDisk config point)
        (calls.flatMap WalCall.entries)

/-- Any number of sessions on an empty directory. -/
inductive Sessions (config : WalConfig) (engine : WalEngine) :
    WalDisk → List WALEntry → Prop where
  | start : Sessions config engine (.empty engine) []
  | session (disk disk' : WalDisk) (acked added : List WALEntry)
      (before : Sessions config engine disk acked)
      (session : Session config disk disk' added) :
      Sessions config engine disk' (acked ++ added)

section

variable {config : WalConfig} {engine : WalEngine}
variable {disk disk' : WalDisk} {added acked : List WALEntry}

theorem openingTorn_survives
    (onDisk : disk.OnDisk config) (now : UInt64) {cut : Nat}
    (strict : cut < disk.headerSize) :
    disk.Survives config (disk.openingTorn config now cut) := by
  cases disk with
  | segment dir =>
      have survives : FileWal.Survives .segment config dir _ :=
        FileWal.openingTorn_survives onDisk now strict
      exact ⟨survives.onDisk, rfl, survives.recovered, survives.kept⟩
  | frame dir =>
      have survives : FileWal.Survives .frame config dir _ :=
        FileWal.openingTorn_survives onDisk now strict
      exact ⟨survives.onDisk, rfl, survives.recovered, survives.kept⟩
  | indexed disk =>
      have survives := IndexedWal.openingTorn_survives onDisk now
      exact ⟨survives.onDisk, rfl, survives.recovered, survives.kept⟩

theorem crashDisk_survives
    {handle : WalHandle} {point : CrashPoint} (ready : handle.Ready config)
    (tolerated : handle.Tolerated config point) :
    handle.disk.Survives config (handle.crashDisk config point) := by
  cases handle with
  | segment wal =>
      have survives : FileWal.Survives .segment config wal.dir _ :=
        FileWal.crash_survives ready tolerated
      exact ⟨survives.onDisk, rfl, survives.recovered, survives.kept⟩
  | frame wal =>
      have survives : FileWal.Survives .frame config wal.dir _ :=
        FileWal.crash_survives ready tolerated
      exact ⟨survives.onDisk, rfl, survives.recovered, survives.kept⟩
  | indexed wal =>
      have survives := IndexedWal.crash_survives ready tolerated
      exact ⟨survives.onDisk, rfl, survives.recovered, survives.kept⟩

theorem session_adds
    (onDisk : disk.OnDisk config) (session : Session config disk disk' added) :
    disk'.OnDisk config ∧
      disk'.recovered config = disk.recovered config ++ added ∧
      disk.Kept disk' := by
  cases session with
  | opening now cut strict =>
      have survives := openingTorn_survives onDisk now strict
      refine ⟨survives.onDisk, ?_, survives.kept⟩
      rw [survives.recovered, List.append_nil]
  | writing start calls opened handle point opens ran admissible tolerated =>
      obtain ⟨opened', opens', sameEngine, ready, recovered, kept⟩ :=
        WalHandle.openWal_grows onDisk start
      rw [opens, Except.ok.injEq] at opens'
      subst opens'
      rw [← sameEngine] at admissible
      obtain ⟨handle', ran', grows⟩ :=
        WalHandle.runCalls_grows ready admissible
      rw [ran, Except.ok.injEq] at ran'
      subst ran'
      have survives := crashDisk_survives grows.ready tolerated
      refine ⟨survives.onDisk, ?_,
        (kept.trans grows.kept).trans survives.kept⟩
      rw [survives.recovered, grows.recovered, recovered]

theorem sessions_onDisk (sessions : Sessions config engine disk acked) :
    disk.OnDisk config ∧ disk.recovered config = acked := by
  induction sessions with
  | start =>
      exact ⟨WalDisk.empty_onDisk config engine,
        WalDisk.empty_recovered config engine⟩
  | session disk disk' acked added before session inductionHypothesis =>
      obtain ⟨onDisk, recovered⟩ := inductionHypothesis
      obtain ⟨onDisk', adds, -⟩ := session_adds onDisk session
      exact ⟨onDisk', by rw [adds, recovered]⟩

end

/-- After any number of sessions with tolerated crashes a recovery reads
exactly the acknowledged entries, and the next session leaves every record
that is there in its place. -/
theorem sessions_recover_acknowledged_entries
    (config : WalConfig) (engine : WalEngine) (disk : WalDisk)
    (acked : List WALEntry) (sessions : Sessions config engine disk acked) :
    disk.readEntriesForRecovery config = .ok (sortByTimestamp acked) ∧
      ∀ disk' added, Session config disk disk' added → disk.Kept disk' := by
  obtain ⟨onDisk, recovered⟩ := sessions_onDisk sessions
  constructor
  · rw [WalDisk.readEntriesForRecovery_onDisk onDisk, recovered]
  · intro disk' added session
    exact (session_adds onDisk session).2.2

/-- A put, then a crash two bytes into the record of the next one. -/
theorem torn_put_session_recovers :
    ∃ disk, Sessions WalHandle.smallConfig .segment disk
        [.put "k" (.bool true) 2] ∧
      disk.readEntriesForRecovery WalHandle.smallConfig =
        .ok (sortByTimestamp [.put "k" (.bool true) 2]) := by
  have admissible : ∀ call ∈ [WalCall.writeOperation "k" (.bool true) 2],
      WalHandle.Admissible WalHandle.smallConfig .segment call := by
    intro call member
    rw [List.mem_singleton] at member
    subst member
    intro entry written
    rw [WalCall.entries, List.mem_singleton] at written
    subst written
    exact ⟨by decide, by decide, rfl⟩
  have session := Session.writing (.empty .segment) 1
    [.writeOperation "k" (.bool true) 2] _ _
    (.tornRecord (.put "l" (.bool true) 3) 2)
    (rfl : (WalDisk.empty .segment).openWal WalHandle.smallConfig 1 = .ok _)
    rfl admissible ⟨⟨by decide, by decide, rfl⟩, by decide, by simp⟩
  have sessions := Sessions.session _ _ _ _ .start session
  exact ⟨_, sessions, (sessions_recover_acknowledged_entries
    WalHandle.smallConfig .segment _ _ sessions).1⟩

/-- The frame backend: a put is acknowledged, the next record is cut behind
its length, and the recovery finds neither. -/
theorem frame_torn_body_loses_acknowledged_put :
    ∃ opened handle,
      (WalDisk.empty .frame).openWal WalHandle.smallConfig 1 =
        .ok opened ∧
      opened.call WalHandle.smallConfig
        (.writeOperation "k" (.bool true) 2) = .ok handle ∧
      4 < (frame (WALEntry.put "l" (.bool true) 3).encode).length ∧
      (handle.crashDisk WalHandle.smallConfig
        (.tornRecord (.put "l" (.bool true) 3) 4)).readEntriesForRecovery
          WalHandle.smallConfig = .ok [] :=
  ⟨_, _, rfl, rfl, by decide, rfl⟩

end F4kvsLsm
