import F4kvsLsm.Wal.Handle

/-!
# Flushing, truncating and closing the log

A flush adds nothing to the log and a truncation leaves an open log without
entries.  A clean shutdown writes a checkpoint before it truncates.
-/

namespace F4kvsLsm

namespace FileWal

/-- `mark_clean_shutdown` of the segment and the frame backend. -/
def markCleanShutdown (engine : FileEngine) (config : WalConfig) (m : FileWal)
    (now : UInt64) : Except LsmError FileWal :=
  match m.current with
  | none => .ok (truncateAfterFlush engine config m now)
  | some _ => do
      let m ← writeEntry engine config m (.checkpoint now) now
      pure (truncateAfterFlush engine config (flush engine m) now)

variable {engine : FileEngine} {config : WalConfig}

theorem truncateAfterFlush_ready
    (engine : FileEngine) (config : WalConfig) (m : FileWal)
    (now : UInt64) :
    Ready engine config (truncateAfterFlush engine config m now) ∧
      recovered engine config (truncateAfterFlush engine config m now).dir =
        [] := by
  have nothing : removeListed (truncationListing engine m)
      (truncationListing engine m).length = [] := List.drop_length
  have layout : Layout engine config
      (truncateAfterFlush engine config m now) []
      (freshFile engine config m.counter now) [] := by
    simp only [truncateAfterFlush, nothing]
    exact rotateSegment_layout_of_closed ⟨List.Pairwise.nil, by simp⟩
      (by simp) (by simp) now
  exact ⟨⟨_, _, _, layout⟩, layout.recovered_eq⟩

theorem markCleanShutdown_ready
    {m : FileWal} (ready : Ready engine config m) {now : UInt64}
    (writable : Writable engine config (.checkpoint now)) :
    ∃ m', markCleanShutdown engine config m now = .ok m' ∧
      Ready engine config m' ∧ recovered engine config m'.dir = [] := by
  obtain ⟨segment, current⟩ := ready.current
  obtain ⟨written, write, -⟩ := writeEntry_grows ready writable now
  have emptied :=
    truncateAfterFlush_ready engine config (flush engine written) now
  refine ⟨_, ?_, emptied⟩
  simp only [markCleanShutdown, current, write]
  rfl

end FileWal

namespace IndexedWal

def markCleanShutdown (config : WalConfig) (m : IndexedWal) (now : UInt64) :
    Except LsmError IndexedWal := do
  let m ← writeEntry config m (.checkpoint now) now
  let m ← flush config m
  pure (truncateAfterFlush config m now)

variable {config : WalConfig}

theorem flush_eq_self {m : IndexedWal} (ready : Ready config m) :
    flush config m = .ok m := by
  obtain ⟨active, older, dir, later, layout⟩ := ready
  have staged := IndexedWalSegment.flushStaging_nil layout.staged
  simp only [flush, layout.opened, staged, setActive_self layout.opened]

theorem truncateAfterFlush_ready
    (config : WalConfig) (m : IndexedWal) (now : UInt64) :
    Ready config (truncateAfterFlush config m now) ∧
      (truncateAfterFlush config m now).disk.recovered = [] := by
  let wiped : IndexedWal :=
    { m with disk := ⟨none, m.disk.root, []⟩, handle := none, segments := [] }
  have above : ∀ dir ∈ wiped.disk.dirs, dir.segmentId < wiped.counter :=
    fun dir member => absurd member List.not_mem_nil
  have ascending : IndexedWalSegment.AscendingDirs wiped.disk.dirs :=
    List.Pairwise.nil
  have roomy : Roomy config (startSegment config wiped now) :=
    startSegment_roomy ascending
      (fun dir member => absurd member List.not_mem_nil) above
      (fun id member => absurd member List.not_mem_nil) now
  exact ⟨roomy.ready, startSegment_recovered above now⟩

theorem markCleanShutdown_ready
    {m : IndexedWal} (ready : Ready config m) {now : UInt64}
    (committable : IndexedWalSegment.Committable config (.checkpoint now)) :
    ∃ m', markCleanShutdown config m now = .ok m' ∧
      Ready config m' ∧ m'.disk.recovered = [] := by
  obtain ⟨written, write, grows⟩ := writeEntry_grows ready committable now
  have flushed := flush_eq_self grows.ready
  refine ⟨_, ?_, truncateAfterFlush_ready config written now⟩
  rw [markCleanShutdown, write]
  change (flush config written >>= _) = _
  rw [flushed]
  rfl

end IndexedWal

namespace WalHandle

variable (config : WalConfig)

def markCleanShutdown (handle : WalHandle) (now : UInt64) :
    Except LsmError WalHandle :=
  match handle with
  | .segment wal =>
      (FileWal.markCleanShutdown .segment config wal now).map .segment
  | .frame wal =>
      (FileWal.markCleanShutdown .frame config wal now).map .frame
  | .indexed wal =>
      (IndexedWal.markCleanShutdown config wal now).map .indexed

/-- A backend that can write a checkpoint. -/
def AdmitsCheckpoint (engine : WalEngine) (now : UInt64) : Prop :=
  match engine with
  | .segment => FileWal.Writable .segment config (.checkpoint now)
  | .frame => FileWal.Writable .frame config (.checkpoint now)
  | .indexed => IndexedWalSegment.Committable config (.checkpoint now)

/-- `handle'` is open on the same backend and holds nothing. -/
structure Emptied (handle handle' : WalHandle) : Prop where
  engine : handle'.disk.engine = handle.disk.engine
  ready : handle'.Ready config
  recovered : handle'.disk.recovered config = []

variable {config} {handle : WalHandle}

theorem flush_grows (ready : handle.Ready config) :
    ∃ handle', handle.flush config = .ok handle' ∧
      Grows config handle handle' [] := by
  cases handle with
  | segment wal =>
      have grows : FileWal.Grows .segment config wal _ [] :=
        FileWal.flush_grows ready
      exact ⟨_, rfl, rfl, grows.ready, grows.recovered, grows.kept⟩
  | frame wal =>
      have grows : FileWal.Grows .frame config wal _ [] :=
        FileWal.flush_grows ready
      exact ⟨_, rfl, rfl, grows.ready, grows.recovered, grows.kept⟩
  | indexed wal =>
      have grows : IndexedWal.Grows config wal wal [] :=
        IndexedWal.grows_self ready
      refine ⟨.indexed wal, ?_, rfl, grows.ready, grows.recovered,
        grows.kept⟩
      rw [flush, IndexedWal.flush_eq_self ready]
      rfl

theorem truncateAfterFlush_emptied (handle : WalHandle) (now : UInt64) :
    Emptied config handle (handle.truncateAfterFlush config now) := by
  cases handle with
  | segment wal =>
      have emptied := FileWal.truncateAfterFlush_ready .segment config wal now
      exact ⟨rfl, emptied.1, emptied.2⟩
  | frame wal =>
      have emptied := FileWal.truncateAfterFlush_ready .frame config wal now
      exact ⟨rfl, emptied.1, emptied.2⟩
  | indexed wal =>
      have emptied := IndexedWal.truncateAfterFlush_ready config wal now
      exact ⟨rfl, emptied.1, emptied.2⟩

theorem markCleanShutdown_emptied
    (ready : handle.Ready config) {now : UInt64}
    (admits : AdmitsCheckpoint config handle.disk.engine now) :
    ∃ handle', handle.markCleanShutdown config now = .ok handle' ∧
      Emptied config handle handle' := by
  cases handle with
  | segment wal =>
      have closed : ∃ wal', FileWal.markCleanShutdown .segment config wal
          now = .ok wal' ∧ _ :=
        FileWal.markCleanShutdown_ready ready admits
      obtain ⟨wal', closing, emptied⟩ := closed
      exact ⟨.segment wal', congrArg (Except.map _) closing, rfl,
        emptied.1, emptied.2⟩
  | frame wal =>
      have closed : ∃ wal', FileWal.markCleanShutdown .frame config wal
          now = .ok wal' ∧ _ :=
        FileWal.markCleanShutdown_ready ready admits
      obtain ⟨wal', closing, emptied⟩ := closed
      exact ⟨.frame wal', congrArg (Except.map _) closing, rfl,
        emptied.1, emptied.2⟩
  | indexed wal =>
      have closed : ∃ wal', IndexedWal.markCleanShutdown config wal now =
          .ok wal' ∧ _ :=
        IndexedWal.markCleanShutdown_ready ready admits
      obtain ⟨wal', closing, emptied⟩ := closed
      exact ⟨.indexed wal', congrArg (Except.map _) closing, rfl,
        emptied.1, emptied.2⟩

end WalHandle

end F4kvsLsm
