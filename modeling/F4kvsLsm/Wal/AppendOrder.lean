import F4kvsLsm.Wal.Sessions
import F4kvsLsm.Wal.StaleRuns

/-!
# The order in which a recovery returns entries

The entries are read in the order in which they were appended, and then sorted
by their timestamps in seconds.  The sort is stable, so this is the order of
appending as long as the clock does not step back.
-/

namespace F4kvsLsm

open ByteCodec Versions

namespace IndexedWal

open IndexedWalSegment

section

variable {config : WalConfig} {state state' : Tracked}
variable {taken : List WALEntry}

theorem WalStep.root
    (step : WalStep config state taken state')
    (present : state.wal.disk.root = true) :
    state'.wal.disk.root = true := by
  cases step with
  | stage entry opened capacity =>
      rw [← active_disk opened] at present
      exact present
  | flush opened filled capacity =>
      rw [← active_disk opened] at present
      exact present
  | oversize entry opened empty capacity =>
      rw [← active_disk opened] at present
      exact present
  | rotate now opened empty => rfl

theorem WalSteps.root
    (steps : WalSteps config state taken state')
    (present : state.wal.disk.root = true) :
    state'.wal.disk.root = true := by
  induction steps with
  | refl => exact present
  | tail _ step inductionHypothesis => exact step.root inductionHypothesis

end

/-! ## Opening a log again -/

section

variable {config : WalConfig} {m : IndexedWal} {active : ActiveSegment}
variable {older : List SegmentLog} {last : SegmentLog}
variable {versions : List (Option IndexSlots)}

theorem Placed.last_member
    (placed : Placed config m active older last) :
    last.dir config ∈ m.disk.dirs := by
  rw [placed.dirs]
  exact List.mem_map_of_mem (List.mem_append_right _ (by simp))

theorem Placed.find_last
    (placed : Placed config m active older last) :
    m.disk.dirs.find? (fun dir => dir.segmentId = last.id) =
      some (last.dir config) := by
  have above : ∀ dir ∈ older.map (SegmentLog.dir config),
      ¬ dir.segmentId = last.id := by
    intro dir member
    obtain ⟨log, inside, rfl⟩ := List.mem_map.mp member
    have ascending := placed.ascending
    rw [List.pairwise_append] at ascending
    exact Nat.ne_of_lt (ascending.2.2 log inside last (by simp))
  rw [placed.dirs, List.map_append, List.find?_append,
    List.find?_eq_none.mpr (by simpa using above)]
  simp [SegmentLog.dir]

/-- The header names a frame at or behind every frame of its segment. -/
theorem Watermarked.behind
    (marked : Watermarked versions active older last)
    (numbered : last.chunks.Pairwise fun a b => a.1 < b.1) :
    ∀ chunk ∈ last.chunks, chunk.1 ≤ active.latest.committedFrame := by
  have named := congrArg Prod.fst marked.marked
  intro chunk member
  rcases List.eq_nil_or_concat last.chunks with empty | ⟨front, top, split⟩
  · rw [empty] at member
    cases member
  · rw [List.concat_eq_append] at split
    have whole : (older ++ [last]).flatMap SegmentLog.chunks =
        older.flatMap SegmentLog.chunks ++ front ++ [top] := by
      simp [split]
    rw [watermark, whole, List.getLast?_concat] at named
    change active.latest.committedFrame = top.1 at named
    rw [split] at member numbered
    rw [List.pairwise_append] at numbered
    rcases List.mem_append.mp member with inFront | isTop
    · have less := numbered.2.2 chunk inFront top (by simp)
      omega
    · rw [List.mem_singleton.mp isTop]
      omega

theorem Placed.above_dirs
    (placed : Placed config m active older last) {counter : Nat}
    (above : ∀ id ∈ ids m.disk, id < counter) :
    ∀ log ∈ older ++ [last], log.id < counter := by
  intro log member
  apply above
  rw [ids, placed.dirs, List.map_map]
  exact List.mem_map.mpr ⟨log, member, rfl⟩

/-- A new manager goes on behind the frames that are there; what was staged
is gone. -/
theorem initializeWal_reopened
    (placed : Placed config m active older last)
    (marked : Watermarked versions active older last)
    (present : m.disk.root = true) (now : UInt64) :
    ∃ m', initializeWal config (new m.disk) now = .ok m' ∧
      Open config m' ∧ m'.disk.root = true ∧
      Accepted config [] ⟨m', [m'.disk.index]⟩ (written older last) := by
  have above := placed.above_dirs (scanExistingSegments_above_ids present)
  have index : m.disk.index = some active.slots := by
    rw [← active_disk placed.opened]
    exact marked.index
  cases resumed : resumeSegment
      { new m.disk with counter := scanExistingSegments (new m.disk) } with
  | none =>
      let scanned : IndexedWal :=
        { new m.disk with counter := scanExistingSegments (new m.disk) }
      have opens : initializeWal config (new m.disk) now =
          .ok (startSegment config scanned now) := by
        simp only [initializeWal, resumed]
        rfl
      obtain ⟨active', placed', holding⟩ := placed_startSegment
        (m := scanned) placed.dirs placed.ascending placed.numbered
        placed.numberedFrom above now
      have found : mark (openIndex scanned.disk scanned.counter
          (frameSize config)).2 = watermark (older ++ [last]) := by
        have index : scanned.disk.index = some active.slots := index
        simp only [openIndex, index, Option.getD_some, marked.latest]
        exact marked.marked
      have marked' := watermarked_startSegment (m := scanned) found now
        placed'.opened
      refine ⟨_, opens, (startSegment_fresh _ now).isOpen, rfl, active',
        older ++ [last], _, [], placed', marked', holding, ?_,
        List.nil_prefix⟩
      simp [written, SegmentLog.entries]
  | some m' =>
      have opens : initializeWal config (new m.disk) now = .ok m' := by
        simp only [initializeWal, resumed]
      simp only [resumeSegment, new, index, Option.bind_eq_bind,
        Option.bind_some, marked.latest, marked.name, placed.find_last]
        at resumed
      split at resumed
      · rw [Option.some.injEq] at resumed
        subst resumed
        have behind := marked.behind (placed.numbered last (by simp))
        have own : ∀ chunk ∈ last.chunks,
            chunk.1 < max (active.latest.committedFrame + 1) 1 := by
          intro chunk member
          have := behind chunk member
          omega
        refine ⟨_, opens, ⟨_, rfl, between_of_empty rfl⟩, present,
          ⟨m.disk, active.slots, active.latest,
            ⟨last.id, max (active.latest.committedFrame + 1) 1, [], 0⟩⟩,
          older, last, [], ?_, ?_, ⟨rfl, rfl, backed_of_empty rfl⟩,
          List.append_nil _, List.nil_prefix⟩
        · exact
            { opened := rfl
              dirs := placed.dirs
              ascending := placed.ascending
              numbered := placed.numbered
              numberedFrom := placed.numberedFrom
              name := rfl
              next := own
              positive := Nat.le_max_right _ _
              above := above }
        · refine ⟨index, marked.latest, marked.name, marked.marked, ?_⟩
          intro version member
          rw [List.mem_singleton.mp member]
          refine ⟨active.latest, last.chunks, ?_, marked.name,
            List.prefix_rfl, marked.marked⟩
          exact (congrArg (fun slots => Option.bind slots
            IndexSlots.readLatest) index).trans marked.latest
      · cases resumed

/-- A frame file of at most 2 ^ 32 bytes is not cut by the index of its own
manager. -/
theorem readEntriesFromDisk_placed
    (placed : Placed config m active older last)
    (marked : Watermarked versions active older last)
    (recordable : ∀ entry ∈ written older last, entry.Recordable)
    (fits : ∀ dir ∈ m.disk.dirs, ∀ file ∈ dir.frames,
      file.2.length ≤ 2 ^ 32) :
    readEntriesFromDisk config m.disk =
      .ok (sortByTimestamp (written older last)) := by
  have described : Described config m.disk (older ++ [last]) :=
    ⟨placed.dirs, placed.ascending, placed.readable recordable⟩
  have latest : m.disk.latest = some active.latest := by
    rw [IndexedDisk.latest, ← active_disk placed.opened, marked.index,
      Option.bind_some, marked.latest]
  have covers : WatermarkCovers m.disk := by
    rcases List.eq_nil_or_concat last.chunks with empty | ⟨front, top, split⟩
    · exact described.covers_empty (by simp) latest marked.name empty
    · rw [List.concat_eq_append] at split
      have whole : (older ++ [last]).flatMap SegmentLog.chunks =
          older.flatMap SegmentLog.chunks ++ front ++ [top] := by
        simp [split]
      have named := marked.marked
      rw [watermark, whole, List.getLast?_concat] at named
      have member : top ∈ last.chunks := by
        rw [split]
        simp
      have size := fits _ placed.last_member _
        (List.mem_map.mpr ⟨top, member, rfl⟩)
      rw [frameFile, List.length_append] at size
      exact described.covers (by simp) latest marked.name member named
        (by omega)
  exact readEntriesFromDisk_covers described covers

end

end IndexedWal

/-! ## Sessions that append -/

namespace WalHandle

/-- What is in memory only. -/
def staged : WalHandle → Bytes
  | .segment _ => []
  | .frame _ => []
  | .indexed wal =>
      match wal.active with
      | some active => active.segment.staging
      | none => []

end WalHandle

/-- The calls of a backend whose entries end up in its log.  The indexed
backend may leave them in its staging buffer for a while. -/
def WalEngine.Appendable (config : WalConfig) (engine : WalEngine)
    (call : WalCall) : Prop :=
  match engine with
  | .indexed => ∀ entry ∈ call.entries, entry.Recordable
  | engine => WalHandle.Admissible config engine call

/-- Any number of sessions on an empty directory, with the entries that have
been appended.  A session stops between two calls, and what it has staged is
lost. -/
inductive AppendRun (config : WalConfig) (engine : WalEngine) :
    WalHandle → List WALEntry → Prop where
  | opened {handle : WalHandle} (start : UInt64)
      (opens : (WalDisk.empty engine).openWal config start = .ok handle) :
      AppendRun config engine handle []
  | called {handle handle' : WalHandle} {appended : List WALEntry}
      (call : WalCall) (run : AppendRun config engine handle appended)
      (appendable : engine.Appendable config call)
      (called : handle.call config call = .ok handle') :
      AppendRun config engine handle' (appended ++ call.entries)
  | flushed {handle handle' : WalHandle} {appended : List WALEntry}
      (run : AppendRun config engine handle appended)
      (flushes : handle.flush config = .ok handle') :
      AppendRun config engine handle' appended
  | restarted {handle handle' : WalHandle} {kept lost : List WALEntry}
      (start : UInt64) (run : AppendRun config engine handle (kept ++ lost))
      (staged : handle.staged = records lost)
      (opens : handle.disk.openWal config start = .ok handle') :
      AppendRun config engine handle' kept

/-- Frame files short enough for the 32-bit offsets of `wal.idx`. -/
def WalDisk.FramesFit : WalDisk → Prop
  | .indexed disk =>
      ∀ dir ∈ disk.dirs, ∀ file ∈ dir.frames, file.2.length ≤ 2 ^ 32
  | _ => True

/-- An open handle whose log holds the appended entries. -/
def WalHandle.Holds (config : WalConfig) (appended : List WALEntry) :
    WalHandle → Prop
  | .indexed wal =>
      IndexedWal.Open config wal ∧ wal.disk.root = true ∧
        (∀ entry ∈ appended, entry.Recordable) ∧
        ∃ versions, IndexedWal.Accepted config [] ⟨wal, versions⟩ appended
  | handle =>
      handle.Ready config ∧ handle.disk.recovered config = appended

section

variable {config : WalConfig} {engine : WalEngine}
variable {handle handle' : WalHandle} {appended : List WALEntry}

theorem WalHandle.holds_of_ready
    (ready : handle.Ready config)
    (recovered : handle.disk.recovered config = appended)
    (inFiles : handle.disk.engine ≠ .indexed) :
    handle.Holds config appended := by
  cases handle with
  | segment wal => exact ⟨ready, recovered⟩
  | frame wal => exact ⟨ready, recovered⟩
  | indexed wal => exact absurd rfl inFiles

theorem WalHandle.Holds.inFiles
    (holds : handle.Holds config appended)
    (inFiles : handle.disk.engine ≠ .indexed) :
    handle.Ready config ∧ handle.disk.recovered config = appended ∧
      handle.staged = [] := by
  cases handle with
  | segment wal => exact ⟨holds.1, holds.2, rfl⟩
  | frame wal => exact ⟨holds.1, holds.2, rfl⟩
  | indexed wal => exact absurd rfl inFiles

theorem opened_holds
    {start : UInt64}
    (opens : (WalDisk.empty engine).openWal config start = .ok handle) :
    handle.disk.engine = engine ∧ handle.Holds config [] := by
  by_cases inFiles : engine = .indexed
  · subst inFiles
    obtain ⟨wal, opens', isOpen, nothing⟩ :=
      IndexedWal.initializeWal_noDisk config start
    have same : (WalDisk.empty .indexed).openWal config start =
        .ok (.indexed wal) := congrArg (Except.map WalHandle.indexed) opens'
    rw [opens, Except.ok.injEq] at same
    subst same
    have present : wal.disk.root = true := by
      cases opens'
      rfl
    exact ⟨rfl, isOpen, present, by simp, _, nothing⟩
  · obtain ⟨handle', opens', sameEngine, ready, recovered, -⟩ :=
      WalHandle.openWal_grows (WalDisk.empty_onDisk config engine) start
    rw [opens, Except.ok.injEq] at opens'
    subst opens'
    rw [WalDisk.empty_engine] at sameEngine
    rw [WalDisk.empty_recovered] at recovered
    exact ⟨sameEngine,
      WalHandle.holds_of_ready ready recovered (sameEngine ▸ inFiles)⟩

theorem indexed_call (call : WalCall) :
    ∃ operation : IndexedWal.IndexedCall,
      operation.entries = call.entries ∧ ∀ wal,
        (WalHandle.indexed wal).call config call =
          (IndexedWal.call config wal operation).map .indexed := by
  cases call with
  | writeOperation key value now =>
      exact ⟨.writeEntry (.put key value now) now, rfl, fun _ => rfl⟩
  | writeDelete key now =>
      exact ⟨.writeEntry (.delete key now) now, rfl, fun _ => rfl⟩
  | batchWriteOperations items now =>
      exact ⟨.batchWriteOperations items now, rfl, fun _ => rfl⟩

theorem called_holds
    {call : WalCall} (holds : handle.Holds config appended)
    (appendable : handle.disk.engine.Appendable config call)
    (called : handle.call config call = .ok handle') :
    handle'.disk.engine = handle.disk.engine ∧
      handle'.Holds config (appended ++ call.entries) := by
  by_cases inFiles : handle.disk.engine = .indexed
  · cases handle with
    | segment wal => cases inFiles
    | frame wal => cases inFiles
    | indexed wal =>
        obtain ⟨isOpen, present, recordable, versions, held⟩ := holds
        obtain ⟨operation, entries, same⟩ := indexed_call call
        obtain ⟨wal', versions', called', steps, isOpen'⟩ :=
          IndexedWal.call_steps isOpen versions operation
        rw [same, called'] at called
        cases called
        have held' := steps.accepted held
        rw [entries] at held'
        refine ⟨rfl, isOpen', steps.root present, ?_, versions', held'⟩
        intro entry member
        rcases List.mem_append.mp member with old | new
        · exact recordable entry old
        · exact appendable entry new
  · obtain ⟨ready, recovered, -⟩ := holds.inFiles inFiles
    have admissible :
        WalHandle.Admissible config handle.disk.engine call := by
      cases handle with
      | segment wal => exact appendable
      | frame wal => exact appendable
      | indexed wal => exact absurd rfl inFiles
    obtain ⟨later, called', grows⟩ := WalHandle.call_grows ready admissible
    rw [called, Except.ok.injEq] at called'
    subst called'
    refine ⟨grows.engine, WalHandle.holds_of_ready grows.ready ?_
      (grows.engine ▸ inFiles)⟩
    rw [grows.recovered, recovered]

theorem flushed_holds
    (holds : handle.Holds config appended)
    (flushes : handle.flush config = .ok handle') :
    handle'.disk.engine = handle.disk.engine ∧
      handle'.Holds config appended := by
  cases handle with
  | segment wal =>
      cases flushes
      have grows := FileWal.flush_grows holds.1
      refine ⟨rfl, grows.ready, ?_⟩
      exact (grows.recovered.trans (List.append_nil _)).trans holds.2
  | frame wal =>
      cases flushes
      have grows := FileWal.flush_grows holds.1
      refine ⟨rfl, grows.ready, ?_⟩
      exact (grows.recovered.trans (List.append_nil _)).trans holds.2
  | indexed wal =>
      obtain ⟨isOpen, present, recordable, versions, held⟩ := holds
      obtain ⟨wal', versions', flushes', steps, isOpen'⟩ :=
        IndexedWal.flush_steps isOpen versions
      have same : (WalHandle.indexed wal).flush config = .ok (.indexed wal') :=
        congrArg (Except.map WalHandle.indexed) flushes'
      rw [flushes, Except.ok.injEq] at same
      subst same
      have held' := steps.accepted held
      rw [List.append_nil] at held'
      exact ⟨rfl, isOpen', steps.root present, recordable, versions', held'⟩

theorem IndexedWal.Accepted.split
    {state : IndexedWal.Tracked} {kept lost : List WALEntry}
    (held : IndexedWal.Accepted config [] state (kept ++ lost))
    (recordable : ∀ entry ∈ kept ++ lost, entry.Recordable)
    (staged : (WalHandle.indexed state.wal).staged = records lost) :
    ∃ active older last, IndexedWal.Placed config state.wal active older last ∧
      IndexedWal.Watermarked state.versions active older last ∧
      IndexedWal.written older last = kept := by
  obtain ⟨active, older, last, pending, placed, marked, holding, whole, -⟩ :=
    held
  have buffer : records pending = records lost := by
    rw [← holding.staging, ← staged]
    simp only [WalHandle.staged, placed.opened]
  have pendingRecordable : ∀ entry ∈ pending, entry.Recordable := by
    intro entry member
    apply recordable
    rw [← whole]
    exact List.mem_append_right _ member
  have lostRecordable : ∀ entry ∈ lost, entry.Recordable :=
    fun entry member => recordable entry (List.mem_append_right _ member)
  have same := IndexedWalSegment.decodeFrames_records pendingRecordable 0
  rw [buffer, IndexedWalSegment.decodeFrames_records lostRecordable,
    Except.ok.injEq] at same
  rw [same] at whole
  exact ⟨active, older, last, placed, marked,
    List.append_cancel_right whole⟩

/-- A log with one file a segment stages nothing. -/
theorem WalHandle.Holds.recovered_inFiles
    {kept lost : List WALEntry} (holds : handle.Holds config (kept ++ lost))
    (inFiles : handle.disk.engine ≠ .indexed)
    (staged : handle.staged = records lost) :
    handle.Ready config ∧ handle.disk.recovered config = kept := by
  obtain ⟨ready, recovered, nothing⟩ := holds.inFiles inFiles
  rw [nothing] at staged
  have none := (IndexedWalSegment.records_eq_nil_iff lost).mp staged.symm
  rw [none, List.append_nil] at recovered
  exact ⟨ready, recovered⟩

theorem restarted_holds
    {kept lost : List WALEntry} {start : UInt64}
    (holds : handle.Holds config (kept ++ lost))
    (staged : handle.staged = records lost)
    (opens : handle.disk.openWal config start = .ok handle') :
    handle'.disk.engine = handle.disk.engine ∧
      handle'.Holds config kept := by
  by_cases inFiles : handle.disk.engine = .indexed
  · cases handle with
    | segment wal => cases inFiles
    | frame wal => cases inFiles
    | indexed wal =>
        obtain ⟨isOpen, present, recordable, versions, held⟩ := holds
        obtain ⟨active, older, last, placed, marked, rfl⟩ :=
          held.split recordable staged
        obtain ⟨wal', opens', isOpen', present', held'⟩ :=
          IndexedWal.initializeWal_reopened placed marked present start
        have same : (WalHandle.indexed wal).disk.openWal config start =
            .ok (.indexed wal') :=
          congrArg (Except.map WalHandle.indexed) opens'
        rw [opens, Except.ok.injEq] at same
        subst same
        refine ⟨rfl, isOpen', present', ?_, _, held'⟩
        intro entry member
        exact recordable entry (List.mem_append_left _ member)
  · obtain ⟨ready, recovered⟩ := holds.recovered_inFiles inFiles staged
    obtain ⟨later, opens', sameEngine, ready', recovered', -⟩ :=
      WalHandle.openWal_grows ready.onDisk start
    rw [opens, Except.ok.injEq] at opens'
    subst opens'
    exact ⟨sameEngine, WalHandle.holds_of_ready ready'
      (recovered'.trans recovered) (sameEngine ▸ inFiles)⟩

theorem AppendRun.holds
    (run : AppendRun config engine handle appended) :
    handle.disk.engine = engine ∧ handle.Holds config appended := by
  induction run with
  | opened start opens => exact opened_holds opens
  | called call _ appendable called inductionHypothesis =>
      obtain ⟨sameEngine, held⟩ := inductionHypothesis
      rw [← sameEngine] at appendable
      obtain ⟨sameEngine', held'⟩ := called_holds held appendable called
      exact ⟨sameEngine'.trans sameEngine, held'⟩
  | flushed _ flushes inductionHypothesis =>
      obtain ⟨sameEngine, held⟩ := inductionHypothesis
      obtain ⟨sameEngine', held'⟩ := flushed_holds held flushes
      exact ⟨sameEngine'.trans sameEngine, held'⟩
  | restarted start _ staged opens inductionHypothesis =>
      obtain ⟨sameEngine, held⟩ := inductionHypothesis
      obtain ⟨sameEngine', held'⟩ := restarted_holds held staged opens
      exact ⟨sameEngine'.trans sameEngine, held'⟩

theorem AppendRun.recovers
    {kept lost : List WALEntry}
    (run : AppendRun config engine handle (kept ++ lost))
    (staged : handle.staged = records lost)
    (fits : handle.disk.FramesFit) :
    handle.disk.readEntriesForRecovery config =
      .ok (sortByTimestamp kept) := by
  obtain ⟨-, holds⟩ := run.holds
  by_cases inFiles : handle.disk.engine = .indexed
  · cases handle with
    | segment wal => cases inFiles
    | frame wal => cases inFiles
    | indexed wal =>
        obtain ⟨isOpen, present, recordable, versions, held⟩ := holds
        obtain ⟨active, older, last, placed, marked, rfl⟩ :=
          held.split recordable staged
        apply IndexedWal.readEntriesFromDisk_placed placed marked ?_ fits
        intro entry member
        exact recordable entry (List.mem_append_left _ member)
  · obtain ⟨ready, recovered⟩ := holds.recovered_inFiles inFiles staged
    rw [WalDisk.readEntriesForRecovery_onDisk ready.onDisk, recovered]

end

/-- After any number of sessions a recovery returns the appended entries
sorted by their timestamps, and entries of the same second in the order in
which they were appended; this is the order of appending if and only if the
timestamps never decrease. -/
theorem recovery_sorts_appended_entries
    (config : WalConfig) (engine : WalEngine) (handle : WalHandle)
    (kept lost : List WALEntry)
    (run : AppendRun config engine handle (kept ++ lost))
    (staged : handle.staged = records lost)
    (fits : handle.disk.FramesFit) :
    ∃ result, handle.disk.readEntriesForRecovery config = .ok result ∧
      result.Perm kept ∧
      Nondecreasing (fun entry : WALEntry => entry.timestamp.toNat) result ∧
      (∀ second, result.filter (fun entry => entry.timestamp.toNat = second) =
        kept.filter (fun entry => entry.timestamp.toNat = second)) ∧
      (result = kept ↔
        Nondecreasing (fun entry : WALEntry => entry.timestamp.toNat)
          kept) := by
  have sorted : Nondecreasing
      (fun entry : WALEntry => entry.timestamp.toNat)
      (sortByTimestamp kept) := sortByStamp_nondecreasing _ kept
  refine ⟨sortByTimestamp kept, run.recovers staged fits,
    List.perm_insertionSort _ kept, sorted,
    filter_stamp_sortByStamp kept, ?_⟩
  constructor
  · intro same
    rw [same] at sorted
    exact sorted
  · exact sortByStamp_eq_self

/-- Two puts of one key, between which the clock steps back. -/
def steppedBack : List WALEntry :=
  [.put "k" (.bool true) 5, .put "k" (.bool false) 2]

theorem stepped_back_run :
    ∃ handle, AppendRun WalHandle.smallConfig .segment handle steppedBack ∧
      handle.staged = records [] ∧ handle.disk.FramesFit := by
  have first : WalEngine.Appendable WalHandle.smallConfig .segment
      (.writeOperation "k" (.bool true) 5) := by
    intro entry written
    rw [List.mem_singleton.mp written]
    exact ⟨by decide, by decide, rfl⟩
  have second : WalEngine.Appendable WalHandle.smallConfig .segment
      (.writeOperation "k" (.bool false) 2) := by
    intro entry written
    rw [List.mem_singleton.mp written]
    exact ⟨by decide, by decide, rfl⟩
  have opened : AppendRun WalHandle.smallConfig .segment _ [] :=
    .opened 1 rfl
  have once := AppendRun.called (.writeOperation "k" (.bool true) 5) opened
    first rfl
  have twice := AppendRun.called (.writeOperation "k" (.bool false) 2) once
    second rfl
  exact ⟨_, twice, rfl, trivial⟩

/-- The later put is returned first. -/
theorem stepped_back_puts_are_swapped :
    ∃ handle, AppendRun WalHandle.smallConfig .segment handle steppedBack ∧
      handle.disk.readEntriesForRecovery WalHandle.smallConfig =
        .ok steppedBack.reverse ∧
      steppedBack.reverse ≠ steppedBack := by
  obtain ⟨handle, run, staged, fits⟩ := stepped_back_run
  have whole : AppendRun WalHandle.smallConfig .segment handle
      (steppedBack ++ []) := run
  refine ⟨handle, run, whole.recovers staged fits, ?_⟩
  intro same
  have heads := congrArg (fun entries => entries.map
    fun entry => entry.timestamp.toNat) same
  exact absurd heads (by decide)

/-- Of two puts in one session, with the clock stepping back between them,
both are returned. -/
theorem stepped_back_puts_are_returned :
    ∃ (handle : WalHandle) (result : List WALEntry),
      handle.disk.readEntriesForRecovery WalHandle.smallConfig =
        .ok result ∧ result.Perm steppedBack := by
  obtain ⟨handle, run, staged, fits⟩ := stepped_back_run
  obtain ⟨result, read, same, -⟩ := recovery_sorts_appended_entries
    WalHandle.smallConfig .segment handle steppedBack [] run staged fits
  exact ⟨handle, result, read, same⟩

end F4kvsLsm
