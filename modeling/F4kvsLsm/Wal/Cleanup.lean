import F4kvsLsm.Wal.Shutdown

/-!
# Background cleanup of the log

The cleanup task removes closed files by their age and, when the directory
has too many files, whatever their age.  It does not ask whether the entries
in a file have reached a table.  A run loses nothing as long as no file that
a cleanup removes holds an entry that is in no table yet.
-/

namespace F4kvsLsm

/-- A difference of times that stops at zero. -/
def saturatingSub (now period : UInt64) : UInt64 :=
  if period ≤ now then now - period else 0

/-- The clock at the three steps of one cleanup. -/
structure CleanupClock where
  old : UInt64
  flushed : UInt64
  force : UInt64

/-! ## One file a segment -/

namespace FileWal

variable (engine : FileEngine) (config : WalConfig)

/-- The file was closed by a rotation of this manager. -/
def isClosed (m : FileWal) (file : WalFile) : Bool :=
  m.segments.any fun closed => closed.2 = file.id

/-- Remove the closed files that were created before the cutoff. -/
def removeOlder (m : FileWal) (cutoff : UInt64) : FileWal :=
  { m with
    dir := m.dir.filter fun file => !(m.isClosed file && file.created < cutoff)
    segments := m.segments.filter fun closed =>
      !(m.dir.any fun file => file.id = closed.2 ∧ file.created < cutoff) }

def removeClosed (m : FileWal) : FileWal :=
  { m with
    dir := m.dir.filter fun file => !m.isClosed file
    segments := [] }

/-- The subtraction of both backends wraps around. -/
def cleanupOldSegments (m : FileWal) (period now : UInt64) : FileWal :=
  removeOlder m (now - period)

/-- What counts as flushed: whatever is older than the grace period. -/
def flushedCutoff (grace now : UInt64) : UInt64 :=
  match engine with
  | .segment => saturatingSub now grace
  | .frame => now - grace

def cleanupFlushedSegments (m : FileWal) (grace now : UInt64) : FileWal :=
  removeOlder m (flushedCutoff engine grace now)

/-- Close the open segment and remove its file. -/
def removeCurrent (m : FileWal) : FileWal :=
  match m.current with
  | some segment =>
      { m with
        dir := (writeHeader engine m.dir segment).filter (·.id ≠ segment.id)
        current := none }
  | none => m

/-- The segment backend removes the open file as well and starts a new
one. -/
def forceCleanup (m : FileWal) (now : UInt64) : FileWal :=
  match engine with
  | .segment =>
      rotateSegment .segment config (removeClosed (removeCurrent .segment m))
        now
  | .frame => removeClosed m

end FileWal

/-! ## One directory a segment -/

namespace IndexedWal

/-- The segment was sealed by a rotation of this manager. -/
def isSealed (m : IndexedWal) (dir : FramesDir) : Bool :=
  m.segments.contains dir.segmentId

/-- `cleanup_old_segments`, before the cutoff is computed. -/
def removeOlder (m : IndexedWal) (cutoff : UInt64) : IndexedWal :=
  { m with
    disk := { m.disk with
      dirs := m.disk.dirs.filter fun dir =>
        !(m.isSealed dir && dir.created < cutoff) }
    segments := m.segments.filter fun id =>
      !(m.disk.dirs.any fun dir => dir.segmentId = id ∧ dir.created < cutoff) }

def cleanupOldSegments (m : IndexedWal) (period now : UInt64) : IndexedWal :=
  removeOlder m (saturatingSub now period)

def forceCleanup (m : IndexedWal) : IndexedWal :=
  { m with
    disk := { m.disk with dirs := m.disk.dirs.filter fun dir => !m.isSealed dir }
    segments := [] }

end IndexedWal

/-! ## The cleanup task -/

namespace WalDisk

/-- How many entries the log directory lists: the files, or `wal.idx` and
`frames/`. -/
def fileCount : WalDisk → Nat
  | .segment dir => dir.length
  | .frame dir => dir.length
  | .indexed disk => disk.index.isSome.toNat + disk.root.toNat

end WalDisk

namespace WalHandle

variable (config : WalConfig)

def cleanupOldSegments (handle : WalHandle) (period now : UInt64) :
    WalHandle :=
  match handle with
  | .segment wal => .segment (wal.cleanupOldSegments period now)
  | .frame wal => .frame (wal.cleanupOldSegments period now)
  | .indexed wal => .indexed (wal.cleanupOldSegments period now)

def cleanupFlushedSegments (handle : WalHandle) (grace now : UInt64) :
    WalHandle :=
  match handle with
  | .segment wal => .segment (wal.cleanupFlushedSegments .segment grace now)
  | .frame wal => .frame (wal.cleanupFlushedSegments .frame grace now)
  | .indexed wal => .indexed (wal.cleanupOldSegments grace now)

def forceCleanup (handle : WalHandle) (now : UInt64) : WalHandle :=
  match handle with
  | .segment wal => .segment (wal.forceCleanup .segment config now)
  | .frame wal => .frame (wal.forceCleanup .frame config now)
  | .indexed wal => .indexed wal.forceCleanup

/-- One round of the cleanup task; the files are counted first. -/
def backgroundCleanup (handle : WalHandle) (clock : CleanupClock) :
    WalHandle :=
  let initialFileCount := handle.disk.fileCount
  let handle := handle.cleanupOldSegments config.retentionPeriod clock.old
  let handle :=
    handle.cleanupFlushedSegments config.retentionAfterFlush clock.flushed
  if initialFileCount > config.maxSegments then
    handle.forceCleanup config clock.force
  else handle

end WalHandle

/-! ## Which files a cleanup removes -/

namespace FileWal

variable {engine : FileEngine} {config : WalConfig}

/-- A cleanup removes a closed file that is old enough, and under too many
files all closed ones; the segment backend then removes the open one too. -/
def Removes (engine : FileEngine) (config : WalConfig) (clock : CleanupClock)
    (m : FileWal) (file : WalFile) : Prop :=
  m.isClosed file = true ∧
      (file.created < clock.old - config.retentionPeriod ∨
        file.created <
          flushedCutoff engine config.retentionAfterFlush clock.flushed) ∨
    config.maxSegments < m.dir.length ∧
      (m.isClosed file = true ∨
        engine = .segment ∧ m.current.map (·.id) = some file.id)

section

variable {m : FileWal} {older : List WalFile} {last : WalFile}
variable {own : List WALEntry}

theorem Layout.isClosed_last
    (layout : Layout engine config m older last own) :
    m.isClosed last = false := by
  rw [isClosed, List.any_eq_false]
  intro closed member
  have below := layout.tracked closed member
  rw [decide_eq_true_eq]
  omega

/-- Removing files other than the open one leaves the manager open. -/
theorem Layout.keep
    (layout : Layout engine config m older last own)
    (keeps : WalFile → Bool) (keepsLast : keeps last = true)
    (segments : List (Nat × Nat))
    (part : ∀ closed ∈ segments, closed ∈ m.segments) :
    Layout engine config
      { m with dir := m.dir.filter keeps, segments := segments }
      (older.filter keeps) last own where
  dir := by
    rw [layout.dir, List.filter_append]
    simp [keepsLast]
  ascending := by
    have ascending := layout.ascending
    unfold Ascending at ascending ⊢
    refine List.Pairwise.sublist ?_ ascending
    exact List.filter_sublist.append_right [last]
  headed := fun file member =>
    layout.headed file (List.mem_of_mem_filter member)
  current := layout.current
  counter := layout.counter
  tracked := fun closed member => layout.tracked closed (part closed member)
  clean := layout.clean

theorem removeOlder_ready
    (ready : Ready engine config m) (cutoff : UInt64) :
    Ready engine config (removeOlder m cutoff) := by
  obtain ⟨older, last, own, layout⟩ := ready
  refine ⟨_, last, own, layout.keep _ ?_ _ ?_⟩
  · simp [layout.isClosed_last]
  · exact fun closed member => List.mem_of_mem_filter member

theorem removeClosed_ready (ready : Ready engine config m) :
    Ready engine config (removeClosed m) := by
  obtain ⟨older, last, own, layout⟩ := ready
  refine ⟨_, last, own, layout.keep _ ?_ [] (by simp)⟩
  simp [layout.isClosed_last]

theorem Layout.ascending_filter
    (layout : Layout engine config m older last own)
    (keeps : WalFile → Bool) : Ascending (older.filter keeps) := by
  have ascending := layout.ascending
  unfold Ascending at ascending ⊢
  refine List.Pairwise.sublist ?_ ascending
  exact List.filter_sublist.trans (List.sublist_append_left _ _)

theorem Layout.below_counter
    (layout : Layout engine config m older last own)
    (keeps : WalFile → Bool) :
    ∀ file ∈ older.filter keeps, file.id < m.counter := by
  intro file member
  have less := ascending_lt_last layout.ascending file
    (List.mem_of_mem_filter member)
  have counter := layout.counter
  omega

/-- What the segment backend does before it starts a new file. -/
theorem removeClosed_removeCurrent
    {header : WALSegmentHeader}
    (layout : Layout engine config m older last own)
    (current : m.current = some ⟨last.id, header⟩) :
    removeClosed (removeCurrent engine m) =
      ⟨older.filter (fun file => !m.isClosed file), none, [], m.counter⟩ := by
  have written := layout.change_last (overwrite (engine.encodeHeader header))
    (layout.clean.overwrite header) header
  have writtenDir : writeHeader engine m.dir ⟨last.id, header⟩ =
      older ++ [closedFile engine header last] := written.dir
  have different : ∀ file ∈ older, file.id ≠ last.id := by
    intro file member
    have less := ascending_lt_last layout.ascending file member
    omega
  have openGone : (older ++ [closedFile engine header last]).filter
      (fun file => decide (file.id ≠ last.id)) = older := by
    rw [List.filter_append, List.filter_eq_self.mpr, List.filter_eq_nil_iff.mpr,
      List.append_nil]
    · intro file member
      rw [List.mem_singleton] at member
      simp [member, closedFile]
    · intro file member
      exact decide_eq_true (different file member)
  simp only [removeCurrent, current, writtenDir, openGone, removeClosed,
    isClosed]

theorem forceCleanup_ready
    (ready : Ready engine config m) (now : UInt64) :
    Ready engine config (forceCleanup engine config m now) := by
  cases engine with
  | frame => exact removeClosed_ready ready
  | segment =>
      obtain ⟨older, last, own, layout⟩ := ready
      obtain ⟨header, current⟩ := layout.current
      rw [forceCleanup, removeClosed_removeCurrent layout current]
      have onDisk : OnDisk .segment
          (older.filter fun file => !m.isClosed file) :=
        ⟨layout.ascending_filter _, fun file member =>
          layout.headed file (List.mem_of_mem_filter member)⟩
      exact ⟨_, _, _, rotateSegment_layout_of_closed onDisk
        (layout.below_counter _) (by simp) now⟩

theorem forceCleanup_keeps
    (ready : Ready engine config m) (now : UInt64) {file : WalFile}
    (member : file ∈ m.dir) (notClosed : m.isClosed file = false)
    (notOpen : ¬ (engine = .segment ∧
      m.current.map (·.id) = some file.id)) :
    file ∈ (forceCleanup engine config m now).dir := by
  cases engine with
  | frame => exact List.mem_filter.mpr ⟨member, by simp [notClosed]⟩
  | segment =>
      obtain ⟨older, last, own, layout⟩ := ready
      obtain ⟨header, current⟩ := layout.current
      rw [forceCleanup, removeClosed_removeCurrent layout current]
      have different : file ≠ last := by
        rintro rfl
        exact notOpen ⟨rfl, by rw [current]; rfl⟩
      have old : file ∈ older := by
        rw [layout.dir] at member
        rcases List.mem_append.mp member with old | new
        · exact old
        · exact absurd (List.mem_singleton.mp new) different
      simp only [rotateSegment, newSegment_eq (layout.ascending_filter _)
        (layout.below_counter _)]
      exact List.mem_append_left _
        (List.mem_filter.mpr ⟨old, by simp [notClosed]⟩)

theorem mem_removeOlder {cutoff : UInt64} {file : WalFile} :
    file ∈ (removeOlder m cutoff).dir ↔
      file ∈ m.dir ∧ ¬ (m.isClosed file = true ∧ file.created < cutoff) := by
  rw [removeOlder, List.mem_filter, Bool.not_eq_true', Bool.eq_false_iff,
    ne_eq, Bool.and_eq_true, decide_eq_true_eq]

theorem isClosed_removeOlder
    {cutoff : UInt64} {file : WalFile}
    (closed : (removeOlder m cutoff).isClosed file = true) :
    m.isClosed file = true := by
  rw [isClosed, List.any_eq_true] at closed ⊢
  obtain ⟨entry, member, here⟩ := closed
  exact ⟨entry, List.mem_of_mem_filter member, here⟩

/-- The three steps of a cleanup. -/
def cleanup (engine : FileEngine) (config : WalConfig) (clock : CleanupClock)
    (m : FileWal) : FileWal :=
  let initialFileCount := m.dir.length
  let m := m.cleanupOldSegments config.retentionPeriod clock.old
  let m := m.cleanupFlushedSegments engine config.retentionAfterFlush
    clock.flushed
  if initialFileCount > config.maxSegments then
    m.forceCleanup engine config clock.force
  else m

theorem cleanup_ready
    (ready : Ready engine config m) (clock : CleanupClock) :
    Ready engine config (cleanup engine config clock m) := by
  have aged := removeOlder_ready
    (removeOlder_ready ready (clock.old - config.retentionPeriod))
    (flushedCutoff engine config.retentionAfterFlush clock.flushed)
  rw [cleanup]
  split
  · exact forceCleanup_ready aged clock.force
  · exact aged

theorem cleanup_keeps
    (ready : Ready engine config m) {clock : CleanupClock} {file : WalFile}
    (member : file ∈ m.dir)
    (stays : ¬ Removes engine config clock m file) :
    file ∈ (cleanup engine config clock m).dir := by
  rw [Removes, not_or] at stays
  obtain ⟨young, spared⟩ := stays
  let first := removeOlder m (clock.old - config.retentionPeriod)
  let second := removeOlder first
    (flushedCutoff engine config.retentionAfterFlush clock.flushed)
  have afterFirst : file ∈ first.dir :=
    mem_removeOlder.mpr ⟨member, fun old => young ⟨old.1, Or.inl old.2⟩⟩
  have afterSecond : file ∈ second.dir :=
    mem_removeOlder.mpr ⟨afterFirst, fun old =>
      young ⟨isClosed_removeOlder old.1, Or.inr old.2⟩⟩
  change file ∈ (if m.dir.length > config.maxSegments then
    forceCleanup engine config second clock.force else second).dir
  split
  · case isTrue tooMany =>
      have unforced := fun cause => spared ⟨tooMany, cause⟩
      refine forceCleanup_keeps
        (removeOlder_ready (removeOlder_ready ready _) _) _ afterSecond ?_ ?_
      · rw [Bool.eq_false_iff]
        exact fun closed => unforced (Or.inl
          (isClosed_removeOlder (isClosed_removeOlder closed)))
      · exact fun opened => unforced (Or.inr opened)
  · exact afterSecond

end

end FileWal

namespace IndexedWal

open IndexedWalSegment

variable {config : WalConfig} {m : IndexedWal}

/-- A cleanup removes a sealed segment that is old enough, and under too many
files all of them. -/
def Removes (config : WalConfig) (clock : CleanupClock) (m : IndexedWal)
    (dir : FramesDir) : Prop :=
  m.isSealed dir = true ∧
    (dir.created < saturatingSub clock.old config.retentionPeriod ∨
      dir.created < saturatingSub clock.flushed config.retentionAfterFlush ∨
      config.maxSegments < m.disk.index.isSome.toNat + m.disk.root.toNat)

/-- Removing directories other than that of the open segment leaves the
manager open. -/
theorem Layout.keep
    {active : ActiveSegment} {older later : List FramesDir} {dir : FramesDir}
    (layout : Layout config m active older dir later)
    (keeps : FramesDir → Bool) (keepsDir : keeps dir = true)
    (segments : List Nat) (part : ∀ id ∈ segments, id ∈ m.segments) :
    ∃ active', Layout config
      { m with
        disk := { m.disk with dirs := m.disk.dirs.filter keeps }
        segments := segments }
      active' (older.filter keeps) dir (later.filter keeps) := by
  have sameDisk := active_disk layout.opened
  have segment := layout.segment
  have split : m.disk.dirs.filter keeps =
      older.filter keeps ++ dir :: later.filter keeps := by
    rw [layout.dirs, List.filter_append, List.filter_cons_of_pos keepsDir]
  have sublist : (older.filter keeps ++ dir :: later.filter keeps).Sublist
      (older ++ dir :: later) := by
    rw [← split, layout.dirs]
    exact List.filter_sublist
  refine ⟨{ active with
    disk := { m.disk with dirs := m.disk.dirs.filter keeps } }, ?_, ?_,
    layout.staged, ?_, fun id member => layout.tracked id (part id member)⟩
  · have opened := layout.opened
    simp only [IndexedWal.active, Option.map_eq_some_iff] at opened ⊢
    obtain ⟨handle, found, rfl⟩ := opened
    exact ⟨handle, found, rfl⟩
  · exact
      { index := sameDisk ▸ segment.index
        latest := segment.latest
        root := sameDisk ▸ segment.root
        dirs := split
        ascending := List.Pairwise.sublist sublist segment.ascending
        dirsOk := fun other member =>
          segment.dirsOk other (sublist.subset member)
        unused := fun other member =>
          segment.unused other (List.mem_of_mem_filter member)
        name := segment.name
        latestName := segment.latestName
        indexOk := segment.indexOk
        positive := segment.positive
        next := segment.next
        link := segment.link }
  · exact fun other member =>
      layout.above other (List.mem_of_mem_filter member)

theorem Layout.isSealed_dir
    {active : ActiveSegment} {older later : List FramesDir} {dir : FramesDir}
    (layout : Layout config m active older dir later) :
    m.isSealed dir = false := by
  rw [isSealed, Bool.eq_false_iff, ne_eq, List.contains_iff_mem]
  exact fun member => (layout.tracked _ member).1 layout.segment.name

theorem removeOlder_ready (ready : Ready config m) (cutoff : UInt64) :
    Ready config (removeOlder m cutoff) := by
  obtain ⟨active, older, dir, later, layout⟩ := ready
  obtain ⟨active', kept⟩ := layout.keep
    (fun dir => !(m.isSealed dir && dir.created < cutoff))
    (by simp [layout.isSealed_dir])
    (m.segments.filter fun id =>
      !(m.disk.dirs.any fun dir => dir.segmentId = id ∧ dir.created < cutoff))
    (fun id member => List.mem_of_mem_filter member)
  exact ⟨active', _, dir, _, kept⟩

theorem forceCleanup_ready (ready : Ready config m) :
    Ready config (forceCleanup m) := by
  obtain ⟨active, older, dir, later, layout⟩ := ready
  obtain ⟨active', kept⟩ := layout.keep
    (fun dir => !m.isSealed dir) (by simp [layout.isSealed_dir]) [] (by simp)
  exact ⟨active', _, dir, _, kept⟩

theorem mem_removeOlder {cutoff : UInt64} {dir : FramesDir} :
    dir ∈ (removeOlder m cutoff).disk.dirs ↔
      dir ∈ m.disk.dirs ∧
        ¬ (m.isSealed dir = true ∧ dir.created < cutoff) := by
  rw [removeOlder, List.mem_filter, Bool.not_eq_true', Bool.eq_false_iff,
    ne_eq, Bool.and_eq_true, decide_eq_true_eq]

theorem isSealed_removeOlder
    {cutoff : UInt64} {dir : FramesDir}
    (closed : (removeOlder m cutoff).isSealed dir = true) :
    m.isSealed dir = true := by
  rw [isSealed, List.contains_iff_mem] at closed ⊢
  exact List.mem_of_mem_filter closed

/-- The three steps of a cleanup. -/
def cleanup (config : WalConfig) (clock : CleanupClock) (m : IndexedWal) :
    IndexedWal :=
  let initialFileCount := (WalDisk.indexed m.disk).fileCount
  let m := m.cleanupOldSegments config.retentionPeriod clock.old
  let m := m.cleanupOldSegments config.retentionAfterFlush clock.flushed
  if initialFileCount > config.maxSegments then m.forceCleanup else m

theorem cleanup_ready (ready : Ready config m) (clock : CleanupClock) :
    Ready config (cleanup config clock m) := by
  have aged := removeOlder_ready
    (removeOlder_ready ready (saturatingSub clock.old config.retentionPeriod))
    (saturatingSub clock.flushed config.retentionAfterFlush)
  rw [cleanup]
  split
  · exact forceCleanup_ready aged
  · exact aged

theorem cleanup_keeps
    {clock : CleanupClock} {dir : FramesDir} (member : dir ∈ m.disk.dirs)
    (stays : ¬ Removes config clock m dir) :
    dir ∈ (cleanup config clock m).disk.dirs := by
  let first := removeOlder m (saturatingSub clock.old config.retentionPeriod)
  let second := removeOlder first
    (saturatingSub clock.flushed config.retentionAfterFlush)
  have afterFirst : dir ∈ first.disk.dirs :=
    mem_removeOlder.mpr ⟨member, fun old => stays ⟨old.1, Or.inl old.2⟩⟩
  have afterSecond : dir ∈ second.disk.dirs :=
    mem_removeOlder.mpr ⟨afterFirst, fun old =>
      stays ⟨isSealed_removeOlder old.1, Or.inr (Or.inl old.2)⟩⟩
  change dir ∈ (if (WalDisk.indexed m.disk).fileCount > config.maxSegments
    then forceCleanup second else second).disk.dirs
  split
  · case isTrue tooMany =>
      refine List.mem_filter.mpr ⟨afterSecond, ?_⟩
      rw [Bool.not_eq_true', Bool.eq_false_iff]
      exact fun closed => stays ⟨isSealed_removeOlder
        (isSealed_removeOlder closed), Or.inr (Or.inr tooMany)⟩
  · exact afterSecond

end IndexedWal

/-! ## Runs with cleanups -/

namespace WalHandle

variable {config : WalConfig} {handle : WalHandle}

theorem backgroundCleanup_segment (wal : FileWal) (clock : CleanupClock) :
    (WalHandle.segment wal).backgroundCleanup config clock =
      .segment (wal.cleanup .segment config clock) := by
  simp only [backgroundCleanup, cleanupOldSegments, cleanupFlushedSegments,
    forceCleanup, FileWal.cleanup, disk, WalDisk.fileCount,
    apply_ite WalHandle.segment]
  rfl

theorem backgroundCleanup_frame (wal : FileWal) (clock : CleanupClock) :
    (WalHandle.frame wal).backgroundCleanup config clock =
      .frame (wal.cleanup .frame config clock) := by
  simp only [backgroundCleanup, cleanupOldSegments, cleanupFlushedSegments,
    forceCleanup, FileWal.cleanup, disk, WalDisk.fileCount,
    apply_ite WalHandle.frame]
  rfl

theorem backgroundCleanup_indexed (wal : IndexedWal) (clock : CleanupClock) :
    (WalHandle.indexed wal).backgroundCleanup config clock =
      .indexed (wal.cleanup config clock) := by
  simp only [backgroundCleanup, cleanupOldSegments, cleanupFlushedSegments,
    forceCleanup, IndexedWal.cleanup, disk, apply_ite WalHandle.indexed]
  rfl

/-- No file that the cleanup removes holds one of the entries. -/
def Spares (config : WalConfig) (clock : CleanupClock)
    (unflushed : List WALEntry) : WalHandle → Prop
  | .segment wal => ∀ file ∈ wal.dir,
      FileWal.Removes .segment config clock wal file →
        ∀ entry ∈ FileEngine.segment.entriesOf config.segmentSize file,
          entry ∉ unflushed
  | .frame wal => ∀ file ∈ wal.dir,
      FileWal.Removes .frame config clock wal file →
        ∀ entry ∈ FileEngine.frame.entriesOf config.segmentSize file,
          entry ∉ unflushed
  | .indexed wal => ∀ dir ∈ wal.disk.dirs,
      IndexedWal.Removes config clock wal dir →
        ∀ entry ∈ IndexedWalSegment.dirEntries dir, entry ∉ unflushed

theorem backgroundCleanup_ready
    (ready : handle.Ready config) (clock : CleanupClock) :
    (handle.backgroundCleanup config clock).Ready config := by
  cases handle with
  | segment wal =>
      rw [backgroundCleanup_segment]
      exact FileWal.cleanup_ready ready clock
  | frame wal =>
      rw [backgroundCleanup_frame]
      exact FileWal.cleanup_ready ready clock
  | indexed wal =>
      rw [backgroundCleanup_indexed]
      exact IndexedWal.cleanup_ready ready clock

private theorem fileCleanup_recovered
    {engine : FileEngine} {wal : FileWal} {clock : CleanupClock}
    {unflushed : List WALEntry} (ready : FileWal.Ready engine config wal)
    (spares : ∀ file ∈ wal.dir, FileWal.Removes engine config clock wal file →
      ∀ entry ∈ engine.entriesOf config.segmentSize file, entry ∉ unflushed)
    {entry : WALEntry} (pending : entry ∈ unflushed)
    (held : entry ∈ FileWal.recovered engine config wal.dir) :
    entry ∈ FileWal.recovered engine config
      (wal.cleanup engine config clock).dir := by
  rw [FileWal.recovered, List.mem_flatMap] at held ⊢
  obtain ⟨file, member, inFile⟩ := held
  exact ⟨file, FileWal.cleanup_keeps ready member fun removed =>
    spares file member removed entry inFile pending, inFile⟩

theorem backgroundCleanup_recovered
    (ready : handle.Ready config) {clock : CleanupClock}
    {unflushed : List WALEntry} (spares : handle.Spares config clock unflushed)
    {entry : WALEntry} (pending : entry ∈ unflushed)
    (held : entry ∈ handle.disk.recovered config) :
    entry ∈ (handle.backgroundCleanup config clock).disk.recovered
      config := by
  cases handle with
  | segment wal =>
      rw [backgroundCleanup_segment]
      exact fileCleanup_recovered ready spares pending held
  | frame wal =>
      rw [backgroundCleanup_frame]
      exact fileCleanup_recovered ready spares pending held
  | indexed wal =>
      rw [backgroundCleanup_indexed]
      change entry ∈ IndexedDisk.recovered _ at held
      change entry ∈ IndexedDisk.recovered _
      rw [IndexedDisk.recovered, List.mem_flatMap] at held ⊢
      obtain ⟨dir, member, inDir⟩ := held
      exact ⟨dir, IndexedWal.cleanup_keeps member fun removed =>
        spares dir member removed entry inDir pending, inDir⟩

/-- The log with its cleanup task and the acknowledged entries that are in no
table.  A memtable flush takes some of these away; the log is truncated only
when none are left. -/
inductive CleanupRun (config : WalConfig) :
    WalHandle → List WALEntry → Prop
  | opened {engine : WalEngine} {handle : WalHandle} (now : UInt64) :
      (WalDisk.empty engine).openWal config now = .ok handle →
      CleanupRun config handle []
  | call {handle handle' : WalHandle} {unflushed : List WALEntry}
      (call : WalCall) :
      CleanupRun config handle unflushed →
      Admissible config handle.disk.engine call →
      handle.call config call = .ok handle' →
      CleanupRun config handle' (unflushed ++ call.entries)
  | flush {handle handle' : WalHandle} {unflushed : List WALEntry} :
      CleanupRun config handle unflushed →
      handle.flush config = .ok handle' →
      CleanupRun config handle' unflushed
  | memtableFlush {handle : WalHandle} {unflushed rest : List WALEntry} :
      CleanupRun config handle unflushed → rest.Sublist unflushed →
      CleanupRun config handle rest
  | truncate {handle : WalHandle} (now : UInt64) :
      CleanupRun config handle [] →
      CleanupRun config (handle.truncateAfterFlush config now) []
  | reopen {handle handle' : WalHandle} {unflushed : List WALEntry}
      (now : UInt64) :
      CleanupRun config handle unflushed →
      handle.disk.openWal config now = .ok handle' →
      CleanupRun config handle' unflushed
  | cleanup {handle : WalHandle} {unflushed : List WALEntry}
      (clock : CleanupClock) :
      CleanupRun config handle unflushed →
      handle.Spares config clock unflushed →
      CleanupRun config (handle.backgroundCleanup config clock) unflushed

/-- What every state of such a run satisfies. -/
theorem CleanupRun.invariant
    {unflushed : List WALEntry} (run : CleanupRun config handle unflushed) :
    handle.Ready config ∧
      ∀ entry ∈ unflushed, entry ∈ handle.disk.recovered config := by
  induction run with
  | @opened engine handle now opens =>
      obtain ⟨found, foundOk, -, ready, -, -⟩ :=
        openWal_grows (WalDisk.empty_onDisk config engine) now
      rw [opens, Except.ok.injEq] at foundOk
      subst foundOk
      exact ⟨ready, by simp⟩
  | call call _ admissible called inductionHypothesis =>
      obtain ⟨ready, held⟩ := inductionHypothesis
      obtain ⟨found, foundOk, grows⟩ := call_grows ready admissible
      rw [called, Except.ok.injEq] at foundOk
      subst foundOk
      refine ⟨grows.ready, fun entry member => ?_⟩
      rw [grows.recovered, List.mem_append]
      exact (List.mem_append.mp member).imp_left (held entry)
  | flush _ flushed inductionHypothesis =>
      obtain ⟨ready, held⟩ := inductionHypothesis
      obtain ⟨found, foundOk, grows⟩ := flush_grows ready
      rw [flushed, Except.ok.injEq] at foundOk
      subst foundOk
      rw [grows.recovered, List.append_nil]
      exact ⟨grows.ready, held⟩
  | memtableFlush _ fewer inductionHypothesis =>
      exact ⟨inductionHypothesis.1, fun entry member =>
        inductionHypothesis.2 entry (fewer.subset member)⟩
  | truncate now _ _ =>
      exact ⟨(truncateAfterFlush_emptied _ now).ready, by simp⟩
  | reopen now _ opens inductionHypothesis =>
      obtain ⟨ready, held⟩ := inductionHypothesis
      obtain ⟨found, foundOk, -, ready', same, -⟩ :=
        openWal_grows ready.onDisk now
      rw [opens, Except.ok.injEq] at foundOk
      subst foundOk
      rw [same]
      exact ⟨ready', held⟩
  | cleanup clock _ spares inductionHypothesis =>
      obtain ⟨ready, held⟩ := inductionHypothesis
      exact ⟨backgroundCleanup_ready ready clock, fun entry member =>
        backgroundCleanup_recovered ready spares member (held entry member)⟩

/-- In a run whose cleanups spare what is in no table, recovery returns it. -/
theorem unflushed_entries_are_recovered
    (config : WalConfig) (handle : WalHandle) (unflushed : List WALEntry)
    (run : CleanupRun config handle unflushed) :
    ∃ entries, handle.disk.readEntriesForRecovery config = .ok entries ∧
      ∀ entry ∈ unflushed, entry ∈ entries := by
  obtain ⟨ready, held⟩ := run.invariant
  refine ⟨_, WalDisk.readEntriesForRecovery_onDisk ready.onDisk,
    fun entry member => ?_⟩
  rw [sortByTimestamp, List.mem_insertionSort]
  exact held entry member

def halfSegment : Value := .bytes (List.replicate 600 0)

def freshWal : FileWal :=
  FileWal.initializeWal .segment smallConfig (.new []) 1

/-- One put in a new log, its file nearly full. -/
def onePut : FileWal :=
  (FileWal.writeOperation .segment smallConfig freshWal "k" halfSegment
    2).toOption.getD freshWal

/-- The second put closes the file of the first. -/
def twoPuts : FileWal :=
  (FileWal.writeOperation .segment smallConfig onePut "a" halfSegment
    3).toOption.getD onePut

set_option maxRecDepth 30000 in
/-- The first put is flushed to a table, and the cleanup removes its file. -/
theorem put_survives_cleanup :
    (WalDisk.segment twoPuts.dir).fileCount = 2 ∧
      ((WalHandle.segment twoPuts).backgroundCleanup smallConfig
        ⟨900, 900, 900⟩).disk.fileCount = 1 ∧
      ∃ entries,
        ((WalHandle.segment twoPuts).backgroundCleanup smallConfig
          ⟨900, 900, 900⟩).disk.readEntriesForRecovery smallConfig =
            .ok entries ∧
          ∀ entry ∈ [WALEntry.put "a" halfSegment 3], entry ∈ entries := by
  refine ⟨by decide, by decide, ?_⟩
  have opens : (WalDisk.empty .segment).openWal smallConfig 1 =
      .ok (.segment freshWal) := rfl
  have first : (WalHandle.segment freshWal).call smallConfig
      (.writeOperation "k" halfSegment 2) = .ok (.segment onePut) := rfl
  have second : (WalHandle.segment onePut).call smallConfig
      (.writeOperation "a" halfSegment 3) = .ok (.segment twoPuts) := rfl
  have firstFits : ∀ entry ∈ [WALEntry.put "k" halfSegment 2],
      FileWal.Writable .segment smallConfig entry :=
    List.forall_mem_singleton.mpr ⟨by decide, by decide, rfl⟩
  have secondFits : ∀ entry ∈ [WALEntry.put "a" halfSegment 3],
      FileWal.Writable .segment smallConfig entry :=
    List.forall_mem_singleton.mpr ⟨by decide, by decide, rfl⟩
  have written := ((CleanupRun.opened 1 opens).call
    (.writeOperation "k" halfSegment 2) firstFits first).call
      (.writeOperation "a" halfSegment 3) secondFits second
  have flushed : CleanupRun smallConfig (.segment twoPuts)
      [.put "a" halfSegment 3] :=
    written.memtableFlush (List.sublist_cons_self _ _)
  refine unflushed_entries_are_recovered smallConfig _ _
    (flushed.cleanup ⟨900, 900, 900⟩ ?_)
  have old : ∀ file ∈ twoPuts.dir, twoPuts.isClosed file = true →
      ∀ entry ∈ FileEngine.segment.entriesOf 1024 file,
        entry.timestamp = 2 := by decide
  intro file member removed entry held pending
  rcases removed with ⟨closed, -⟩ | ⟨many, -⟩
  · have stamp := old file member closed entry held
    rw [List.mem_singleton.mp pending] at stamp
    exact absurd stamp (by decide)
  · exact absurd many (by decide)

set_option maxRecDepth 30000 in
/-- The second put closes the file of the first, and a cleanup a quarter of an
hour later removes that file. -/
theorem cleanup_removes_unflushed_put :
    ∃ opened handle,
      (WalDisk.empty .segment).openWal smallConfig 1 = .ok opened ∧
      opened.runCalls smallConfig
        [.writeOperation "k" halfSegment 2,
          .writeOperation "a" halfSegment 3] = .ok handle ∧
      (handle.backgroundCleanup smallConfig
        ⟨900, 900, 900⟩).disk.readEntriesForRecovery smallConfig =
          .ok [.put "a" halfSegment 3] :=
  ⟨_, _, rfl, rfl, rfl⟩

end WalHandle

end F4kvsLsm
