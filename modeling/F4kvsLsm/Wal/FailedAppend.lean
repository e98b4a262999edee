import F4kvsLsm.Wal.CrashImages

/-!
# Appends that the file system fails

A write to a log with one file a segment may fail while the open file is
closed, while a new one is created, while the records are written or when they
are synced.  What it leaves is read as before as long as no record is whole
and, with the frame log, none is cut in its body: there the file is lost then.
Of the indexed log only what it leaves is known.
-/

namespace F4kvsLsm

open ByteCodec

/-- Where a write to a log with one file a segment fails. -/
inductive FileFault where
  | opening
  | closing
  | creating (now : UInt64) (cut : Nat)
  | rotated (now : UInt64) (later : FileFault)
  | appending (cut : Nat)
  /-- The records and the header are written, but not synced. -/
  | syncing

namespace FileFault

variable (engine : FileEngine) (config : WalConfig) (entries : List WALEntry)

/-- The directory that a failed write of `entries` leaves. -/
def dir : FileFault → FileWal → List WalFile
  | .opening, m => m.dir
  | .closing, m => (FileWal.flush engine m).dir
  | .creating now cut, m =>
      (FileWal.flush engine m).dir ++
        [⟨m.counter, now,
          (engine.encodeHeader (FileWal.newHeader config now)).take cut⟩]
  | .rotated now later, m =>
      later.dir (FileWal.rotateSegment engine config m now)
  | .appending cut, m =>
      match m.current with
      | some segment =>
          FileWal.updateFile m.dir segment.id
            (· ++ (records entries).take cut)
      | none => m.dir
  | .syncing, m =>
      match m.current with
      | some segment => (FileWal.appendBatch engine m segment entries).dir
      | none => m.dir

/-- No entry is read that was not read before, and none is lost. -/
def Unread : FileFault → FileWal → Prop
  | .opening, _ | .closing, _ | .creating _ _, _ => True
  | .rotated now later, m =>
      later.Unread (FileWal.rotateSegment engine config m now)
  | .appending cut, m =>
      if engine = .frame ∧ cutsBody entries cut then
        FileWal.NoRecord engine m
      else wholeEntries entries cut = []
  | .syncing, _ => entries = []

end FileFault

/-! ## What is read afterwards -/

namespace FileWal

/-- `dir'` can be read, and as `dir` exactly when `unread` holds. -/
structure ReadsAlike (engine : FileEngine) (config : WalConfig)
    (unread : Prop) (dir dir' : List WalFile) : Prop where
  onDisk : OnDisk engine dir'
  same : unread → recovered engine config dir' = recovered engine config dir
  unread : (recovered engine config dir').length =
    (recovered engine config dir).length → unread

variable {engine : FileEngine} {config : WalConfig} {m : FileWal}
variable {entries : List WALEntry}

theorem ReadsAlike.of_recovered
    {dir dir' : List WalFile} (onDisk : OnDisk engine dir')
    (same : recovered engine config dir' = recovered engine config dir) :
    ReadsAlike engine config True dir dir' :=
  ⟨onDisk, fun _ => same, fun _ => trivial⟩

theorem ReadsAlike.rebase
    {unread : Prop} {dir before dir' : List WalFile}
    (alike : ReadsAlike engine config unread before dir')
    (same : recovered engine config before = recovered engine config dir) :
    ReadsAlike engine config unread dir dir' := by
  constructor
  case onDisk => exact alike.onDisk
  case same =>
    intro unread
    exact (alike.same unread).trans same
  case unread =>
    intro length
    apply alike.unread
    rw [length, same]

theorem Layout.noRecord_iff
    {older : List WalFile} {last : WalFile} {own : List WALEntry}
    (layout : Layout engine config m older last own) :
    NoRecord engine m ↔ own = [] := by
  rcases layout.current with ⟨header, current⟩
  rcases layout.clean with ⟨bytes, headed, content, stored⟩
  have size : fileLen m.dir last.id =
      engine.headerSize + (records own).length := by
    rw [layout.fileLen_eq, content, List.length_append, headed.size]
  constructor
  · intro noRecord
    have bare := noRecord _ current
    apply (IndexedWalSegment.records_eq_nil_iff own).mp
    apply List.eq_nil_of_length_eq_zero
    have bare : fileLen m.dir last.id = engine.headerSize := bare
    omega
  · intro nothing segment open'
    rw [current, Option.some.injEq] at open'
    rw [← open', size, nothing, records_nil, List.length_nil, add_zero]

/-- Some bytes of the records behind the open file. -/
theorem appending_readsAlike
    (ready : Ready engine config m)
    (storable : ∀ entry ∈ entries,
      engine.Storable config.segmentSize entry) (cut : Nat) :
    ReadsAlike engine config
      ((FileFault.appending cut).Unread engine config entries m) m.dir
      ((FileFault.appending cut).dir engine config entries m) := by
  rcases ready with ⟨older, last, own, layout⟩
  rcases layout.current with ⟨header, current⟩
  have dirAfter : (FileFault.appending cut).dir engine config entries m =
      older ++ [{ last with
        content := last.content ++ (records entries).take cut }] := by
    simp only [FileFault.dir, current]
    rw [layout.dir]
    exact updateFile_append_singleton layout.ascending _
  have read := entriesOf_cut layout.clean storable cut
  rw [dirAfter]
  constructor
  case onDisk => exact layout.onDisk_append _
  case same =>
    intro unread
    rw [recovered_append, recovered_singleton, read, layout.recovered_eq]
    rw [FileFault.Unread] at unread
    split at unread
    · case isTrue lost =>
        rw [if_pos lost, layout.noRecord_iff.mp unread]
    · case isFalse readable =>
        rw [if_neg readable, unread, List.append_nil]
  case unread =>
    intro length
    rw [recovered_append, recovered_singleton, read, layout.recovered_eq,
      List.length_append, List.length_append] at length
    rw [FileFault.Unread]
    split
    · case isTrue lost =>
        rw [if_pos lost, List.length_nil] at length
        apply layout.noRecord_iff.mpr
        apply List.eq_nil_of_length_eq_zero
        omega
    · case isFalse readable =>
        rw [if_neg readable, List.length_append] at length
        apply List.eq_nil_of_length_eq_zero
        omega

/-- What a write leaves that fails in an open log. -/
theorem fault_readsAlike
    {fault : FileFault} (ready : Ready engine config m)
    (storable : ∀ entry ∈ entries,
      engine.Storable config.segmentSize entry) :
    ReadsAlike engine config (fault.Unread engine config entries m) m.dir
      (fault.dir engine config entries m) := by
  induction fault generalizing m with
  | opening => exact .of_recovered ready.onDisk rfl
  | closing =>
      have flushed := flush_grows ready
      apply ReadsAlike.of_recovered flushed.ready.onDisk
      exact flushed.recovered.trans (List.append_nil _)
  | creating now cut =>
      have flushed := flush_grows ready
      have above := flushed.ready.above
      rw [flush_counter] at above
      have survives : Survives engine config (flush engine m).dir _ :=
        created_survives flushed.ready.onDisk above now cut
      apply ReadsAlike.of_recovered survives.onDisk
      exact survives.recovered.trans
        (flushed.recovered.trans (List.append_nil _))
  | rotated now later inductionHypothesis =>
      have rotation := rotateSegment_grows ready now
      apply (inductionHypothesis rotation.ready).rebase
      rw [rotation.recovered, List.append_nil]
  | appending cut => exact appending_readsAlike ready storable cut
  | syncing =>
      rcases ready.current with ⟨segment, current⟩
      have written := appendBatch_grows ready current storable
      have dirAfter : FileFault.syncing.dir engine config entries m =
          (appendBatch engine m segment entries).dir := by
        simp only [FileFault.dir, current]
      rw [dirAfter]
      constructor
      case onDisk => exact written.ready.onDisk
      case same =>
        intro unread
        rw [FileFault.Unread] at unread
        rw [written.recovered, unread, List.append_nil]
      case unread =>
        intro length
        rw [written.recovered, List.length_append] at length
        apply List.eq_nil_of_length_eq_zero
        omega

theorem sortByTimestamp_length (entries : List WALEntry) :
    (sortByTimestamp entries).length = entries.length :=
  (List.perm_insertionSort _ entries).length_eq

theorem ReadsAlike.read_iff
    {unread : Prop} {dir dir' : List WalFile}
    (alike : ReadsAlike engine config unread dir dir')
    (onDisk : OnDisk engine dir) :
    readEntriesFromDisk engine config dir' =
        readEntriesFromDisk engine config dir ↔ unread := by
  rw [readEntriesFromDisk_onDisk alike.onDisk,
    readEntriesFromDisk_onDisk onDisk, Except.ok.injEq]
  constructor
  · intro same
    apply alike.unread
    have lengths := congrArg List.length same
    rw [sortByTimestamp_length, sortByTimestamp_length] at lengths
    exact lengths
  · intro unread
    rw [alike.same unread]

end FileWal

/-! ## The handle -/

/-- What a write leaves that fails in the file system. -/
inductive LogFault where
  | file (fault : FileFault)
  | indexed (left : IndexedDisk)

namespace WalHandle

variable (config : WalConfig) (entries : List WALEntry)

/-- Only the directory of the handle counts afterwards; a fault of another
backend does nothing. -/
def afterFault (handle : WalHandle) (fault : LogFault) : WalHandle :=
  match handle, fault with
  | .segment m, .file fault =>
      .segment { m with dir := fault.dir .segment config entries m }
  | .frame m, .file fault =>
      .frame { m with dir := fault.dir .frame config entries m }
  | .indexed m, .indexed left => .indexed { m with disk := left }
  | handle, _ => handle

def Unread (handle : WalHandle) (fault : LogFault) : Prop :=
  match handle, fault with
  | .segment m, .file fault => fault.Unread .segment config entries m
  | .frame m, .file fault => fault.Unread .frame config entries m
  | .indexed m, .indexed left =>
      IndexedWal.readEntriesFromDisk config left =
        IndexedWal.readEntriesFromDisk config m.disk
  | _, _ => True

section

variable {config : WalConfig} {handle : WalHandle} {call : WalCall}

theorem afterFault_read_iff
    (ready : handle.Ready config)
    (admissible : Admissible config handle.disk.engine call)
    (fault : LogFault) :
    (handle.afterFault config call.entries fault).disk.readEntriesForRecovery
          config = handle.disk.readEntriesForRecovery config ↔
      handle.Unread config call.entries fault := by
  cases handle with
  | segment m =>
      cases fault with
      | file fault =>
          have admitted : Admissible config
              FileEngine.segment.walEngine call := admissible
          exact (FileWal.fault_readsAlike ready admitted.storable).read_iff
            (FileWal.Ready.onDisk ready)
      | indexed left => exact iff_of_true rfl trivial
  | frame m =>
      cases fault with
      | file fault =>
          have admitted : Admissible config
              FileEngine.frame.walEngine call := admissible
          exact (FileWal.fault_readsAlike ready admitted.storable).read_iff
            (FileWal.Ready.onDisk ready)
      | indexed left => exact iff_of_true rfl trivial
  | indexed m =>
      cases fault with
      | file fault => exact iff_of_true rfl trivial
      | indexed left => exact Iff.rfl

end

end WalHandle

end F4kvsLsm
