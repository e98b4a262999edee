import F4kvsLsm.Wal.StaleIndex

/-!
# Power losses of a synced session

In Fsync mode nothing is staged between two calls, so the frame files hold
the acknowledged entries.  What a recovery returns of them then depends on
the index that has survived.
-/

namespace F4kvsLsm

open ByteCodec Versions

namespace IndexedWal

open IndexedWalSegment

/-- A session that starts on an empty directory, with the entries that it has
acknowledged and the versions of the index since its last sync. -/
inductive CallRun (config : WalConfig) : Tracked → List WALEntry → Prop where
  | opened {m : IndexedWal} (start : UInt64)
      (opens : initializeWal config (new noDisk) start = .ok m) :
      CallRun config ⟨m, [m.disk.index]⟩ []
  | called {state state' : Tracked} {acked : List WALEntry}
      (operation : IndexedCall) (run : CallRun config state acked)
      (called : call config state.wal operation = .ok state'.wal)
      (steps : WalSteps config state operation.entries state') :
      CallRun config state' (acked ++ operation.entries)
  | rotated {state state' : Tracked} {acked : List WALEntry}
      (now : UInt64) (run : CallRun config state acked)
      (rotated : rotateSegment config state.wal now = .ok state'.wal)
      (steps : WalSteps config state [] state') :
      CallRun config state' acked

section

variable {config : WalConfig} {state : Tracked} {acked : List WALEntry}

theorem CallRun.isOpen
    (run : CallRun config state acked) : Open config state.wal := by
  induction run with
  | opened start opens =>
      obtain ⟨m, opens', isOpen, -⟩ := initializeWal_noDisk config start
      rw [opens, Except.ok.injEq] at opens'
      subst opens'
      exact isOpen
  | called operation _ called _ inductionHypothesis =>
      obtain ⟨m, versions, called', -, isOpen⟩ :=
        call_steps inductionHypothesis [] operation
      rw [called, Except.ok.injEq] at called'
      subst called'
      exact isOpen
  | rotated now _ rotated _ inductionHypothesis =>
      obtain ⟨m, versions, rotated', -, fresh⟩ :=
        rotateSegment_steps inductionHypothesis [] now
      rw [rotated, Except.ok.injEq] at rotated'
      subst rotated'
      exact fresh.isOpen

theorem CallRun.accepted
    (run : CallRun config state acked) :
    Accepted config [] state acked := by
  induction run with
  | opened start opens =>
      obtain ⟨m, opens', -, nothing⟩ := initializeWal_noDisk config start
      rw [opens, Except.ok.injEq] at opens'
      subst opens'
      exact nothing
  | called _ _ _ steps inductionHypothesis =>
      exact steps.accepted inductionHypothesis
  | rotated _ _ _ steps inductionHypothesis =>
      have held := steps.accepted inductionHypothesis
      rw [List.append_nil] at held
      exact held

theorem CallRun.inFrames
    (run : CallRun config state acked) (fsync : config.syncMode = .fsync) :
    ∃ active older last, Placed config state.wal active older last ∧
      Watermarked state.versions active older last ∧
      active.segment.staging = [] ∧ written older last = acked := by
  obtain ⟨active, older, last, pending, placed, marked, holding, whole, -⟩ :=
    run.accepted
  obtain ⟨active', opened, between⟩ := run.isOpen
  rw [placed.opened, Option.some.injEq] at opened
  subst opened
  have empty : active.segment.staging = [] := by
    by_contra filled
    exact (between filled).2 fsync
  have nothing := holding.pending_nil empty
  subst nothing
  rw [List.append_nil] at whole
  exact ⟨active, older, last, placed, marked, empty, whole⟩

/-! ## What a power loss leaves -/

/-- The directory that a rotation may have created. -/
def createdLog (m : IndexedWal) (created : Option UInt64) :
    List SegmentLog :=
  created.toList.map fun now => ⟨m.counter, now, []⟩

theorem Placed.readable
    {m : IndexedWal} {active : ActiveSegment} {older : List SegmentLog}
    {last : SegmentLog} (placed : Placed config m active older last)
    (recordable : ∀ entry ∈ written older last, entry.Recordable) :
    ∀ log ∈ older ++ [last], log.Readable := by
  intro log member
  refine ⟨placed.numbered log member, placed.numberedFrom log member, ?_⟩
  intro entry inside
  exact recordable entry (List.mem_flatMap.mpr ⟨log, member, inside⟩)

theorem Placed.crashImage
    {m : IndexedWal} {active : ActiveSegment} {older : List SegmentLog}
    {last : SegmentLog} (placed : Placed config m active older last)
    (recordable : ∀ entry ∈ written older last, entry.Recordable)
    (version : Option IndexSlots) (created : Option UInt64) :
    Described config (crashImage m version created)
      ((older ++ [last]) ++ createdLog m created) := by
  have dirs : (createdLog m created).map (SegmentLog.dir config) =
      created.toList.map fun now => ⟨m.counter, now, []⟩ := by
    cases created with
    | none => rfl
    | some now => rfl
  constructor
  · rw [List.map_append, dirs, ← placed.dirs]
    rfl
  · rw [List.pairwise_append]
    refine ⟨placed.ascending, ?_, ?_⟩
    · cases created with
      | none => exact List.Pairwise.nil
      | some now => exact List.pairwise_singleton _ _
    · intro log member other new
      obtain ⟨now, -, rfl⟩ := List.mem_map.mp new
      exact placed.above log member
  · intro log member
    rcases List.mem_append.mp member with old | new
    · exact placed.readable recordable log old
    · obtain ⟨now, -, rfl⟩ := List.mem_map.mp new
      exact ⟨List.Pairwise.nil, by simp, by simp [SegmentLog.entries]⟩

theorem entries_createdLog (logs : List SegmentLog) (m : IndexedWal)
    (created : Option UInt64) :
    (logs ++ createdLog m created).flatMap SegmentLog.entries =
      logs.flatMap SegmentLog.entries := by
  cases created with
  | none => simp [createdLog]
  | some now => simp [createdLog, SegmentLog.entries]

theorem lastScanned_add
    {log : SegmentLog} {frame : Nat} (chunk : List WALEntry)
    (below : ∀ other ∈ log.chunks, other.1 < frame) :
    lastScanned ((log.add frame chunk).dir config) = frame := by
  have numbers : ((log.add frame chunk).dir config).frames.map (·.1) =
      log.chunks.map (·.1) ++ [frame] := by
    simp [SegmentLog.dir, SegmentLog.add]
  rw [lastScanned, numbers]
  apply HighWater.foldl_max_concat _ (Nat.zero_le _)
  intro value member
  obtain ⟨other, inside, rfl⟩ := List.mem_map.mp member
  exact Nat.le_of_lt (below other inside)

theorem frameContent_add
    {log : SegmentLog} {frame : Nat} (chunk : List WALEntry)
    (numbered : log.chunks.Pairwise fun a b => a.1 < b.1)
    (below : ∀ other ∈ log.chunks, other.1 < frame) :
    frameContent ((log.add frame chunk).dir config)
        (lastScanned ((log.add frame chunk).dir config)) =
      some (frameFile config (records chunk)) := by
  rw [lastScanned_add chunk below]
  have ascending : ((log.add frame chunk).dir config).frames.Pairwise
      fun a b => a.1 < b.1 := by
    apply List.pairwise_map.mpr
    rw [SegmentLog.add, List.pairwise_append]
    refine ⟨numbered, List.pairwise_singleton _ _, ?_⟩
    intro other member file here
    rw [List.mem_singleton.mp here]
    exact below other member
  have member : (frame, frameFile config (records chunk)) ∈
      ((log.add frame chunk).dir config).frames := by
    simp [SegmentLog.dir, SegmentLog.add]
  exact frameContent_of_mem ascending member

/-- A header that a commit in this segment has written covers it, unless the
offset of the frame has wrapped around. -/
theorem Placed.committed_covers
    {m : IndexedWal} {active : ActiveSegment} {older : List SegmentLog}
    {last : SegmentLog} (placed : Placed config m active older last)
    (recordable : ∀ entry ∈ written older last, entry.Recordable)
    {version : Option IndexSlots} {created : Option UInt64}
    {header : WalIndexHeader}
    (read : version.bind IndexSlots.readLatest = some header)
    (name : header.segmentId = last.id)
    {front : List (Nat × List WALEntry)} (filled : front ≠ [])
    (isPrefix : front <+: last.chunks)
    (marked : mark header =
      watermark (older ++ [{ last with chunks := front }]))
    (small : ∀ chunk ∈ last.chunks, (records chunk.2).length < 2 ^ 32) :
    WatermarkCovers (IndexedWal.crashImage m version created) := by
  have described := placed.crashImage recordable version created
  rcases List.eq_nil_or_concat front with empty | ⟨before, chunk, rfl⟩
  · exact absurd empty filled
  · rw [List.concat_eq_append] at isPrefix marked
    have member : chunk ∈ last.chunks := isPrefix.subset (by simp)
    have chunks :
        (older ++ [{ last with chunks := before ++ [chunk] }]).flatMap
          SegmentLog.chunks =
            older.flatMap SegmentLog.chunks ++ before ++ [chunk] := by
      simp
    rw [watermark, chunks, List.getLast?_concat] at marked
    exact described.covers (by simp) read name member marked
      (Nat.le_of_lt (small chunk member))

/-- A version of the index that does not cover its segment is the one that
the rotation has written, with the watermark of an earlier segment. -/
theorem CallRun.uncovered_version
    (run : CallRun config state acked) (fsync : config.syncMode = .fsync)
    (recordable : ∀ entry ∈ acked, entry.Recordable)
    {version : Option IndexSlots} (survived : version ∈ state.versions)
    {created : Option UInt64}
    (uncovered : ¬ WatermarkCovers (crashImage state.wal version created))
    (small : ∀ dir ∈ state.wal.disk.dirs, ∀ file ∈ dir.frames,
      file.2.length < 2 ^ 32) :
    ∃ older last header,
      state.wal.disk.dirs = (older ++ [last]).map (SegmentLog.dir config) ∧
      version.bind IndexSlots.readLatest = some header ∧
      header.segmentId = last.id ∧ mark header = watermark older := by
  obtain ⟨active, older, last, placed, marked, -, rfl⟩ := run.inFrames fsync
  obtain ⟨header, front, read, name, isPrefix, kept⟩ :=
    marked.versions version survived
  by_cases filled : front = []
  · subst filled
    refine ⟨older, last, header, placed.dirs, read, name, ?_⟩
    rw [kept, watermark, watermark]
    simp
  · refine absurd ?_ uncovered
    apply placed.committed_covers recordable read name filled isPrefix kept
    intro chunk member
    have inside : last.dir config ∈ state.wal.disk.dirs := by
      rw [placed.dirs]
      simp
    have bound := small _ inside _ (List.mem_map_of_mem member (f := fun
      chunk => (chunk.1, frameFile config (records chunk.2))))
    rw [frameFile, List.length_append] at bound
    omega

/-- Whatever index survives, the frame files hold the acknowledged
entries. -/
theorem CallRun.described
    (run : CallRun config state acked) (fsync : config.syncMode = .fsync)
    (recordable : ∀ entry ∈ acked, entry.Recordable)
    (version : Option IndexSlots) (created : Option UInt64) :
    ∃ logs, Described config (crashImage state.wal version created) logs ∧
      logs.flatMap SegmentLog.entries = acked := by
  obtain ⟨active, older, last, placed, -, -, rfl⟩ := run.inFrames fsync
  exact ⟨_, placed.crashImage recordable version created,
    entries_createdLog (older ++ [last]) state.wal created⟩

/-- After any calls and rotations in Fsync mode and a power loss that leaves
any index, a recovery returns the acknowledged entries in order if and only if
the watermark of that index covers its segment and the timestamps never
decrease. -/
theorem stale_index_recovery
    (config : WalConfig) (fsync : config.syncMode = .fsync)
    (state : Tracked) (acked : List WALEntry)
    (run : CallRun config state acked)
    (recordable : ∀ entry ∈ acked, entry.Recordable)
    (version : Option IndexSlots) (created : Option UInt64) :
    readEntriesFromDisk config (crashImage state.wal version created) =
        .ok acked ↔
      WatermarkCovers (crashImage state.wal version created) ∧
        Nondecreasing (fun entry : WALEntry => entry.timestamp.toNat)
          acked := by
  obtain ⟨logs, described, rfl⟩ :=
    run.described fsync recordable version created
  exact readEntriesFromDisk_iff described

end

/-! ## A watermark of another segment -/

/-- A run in Fsync mode whose last segment is `last`. -/
structure Stands (config : WalConfig) (state : Tracked)
    (acked : List WALEntry) (active : ActiveSegment)
    (older : List SegmentLog) (last : SegmentLog) : Prop where
  run : CallRun config state acked
  placed : Placed config state.wal active older last
  marked : Watermarked state.versions active older last
  empty : active.segment.staging = []
  fsync : config.syncMode = .fsync

section

variable {config : WalConfig} {m : IndexedWal} {active : ActiveSegment}
variable {older : List SegmentLog} {last : SegmentLog}
variable {versions : List (Option IndexSlots)}

/-- The segment after an entry that gets a frame of its own. -/
def committed (config : WalConfig) (active : ActiveSegment)
    (entry : WALEntry) : ActiveSegment :=
  flushed config (stage active (encodeEntry entry))

theorem staging_stage (active : ActiveSegment) (entry : WALEntry) :
    (stage active (encodeEntry entry)).segment.staging ≠ [] := by
  intro none
  have nothing := (List.append_eq_nil_iff.mp none).2
  rw [encodeEntry, ← records_singleton] at nothing
  exact absurd ((records_eq_nil_iff [entry]).mp nothing) (by simp)

theorem appendEntry_synced
    (fsync : config.syncMode = .fsync)
    (empty : active.segment.staging = [])
    (capacity : hasFrameCapacity config active.segment = true)
    {entry : WALEntry}
    (small : (encodeEntry entry).length < frameSize config) :
    appendEntry config active entry =
      (committed config active entry, true) := by
  have fits : ¬ (encodeEntry entry).length > frameSize config := by omega
  have room : makeRoom config active (encodeEntry entry) = (active, true) := by
    rw [makeRoom, if_neg (fun filled => filled.1 (List.isEmpty_iff.mpr empty))]
  have partly : ¬ (active.segment.staging.isEmpty = true ∧
      (encodeEntry entry).length = frameSize config) := by
    intro exactFit
    omega
  have full : ¬ (active.segment.staging.isEmpty = true ∧
      ¬ hasFrameCapacity config active.segment = true) :=
    fun none => none.2 capacity
  have filled : ¬ (stage active (encodeEntry entry)).segment.staging.isEmpty =
      true :=
    fun none => staging_stage active entry (List.isEmpty_iff.mp none)
  have available : hasFrameCapacity config
      (stage active (encodeEntry entry)).segment = true := capacity
  simp only [appendEntry, if_neg fits, room, if_neg full, if_neg partly,
    fsync, true_or, if_true, flushStaging, if_neg filled, if_pos available]
  rfl

theorem appendEntry_full
    (empty : active.segment.staging = [])
    (full : ¬ hasFrameCapacity config active.segment = true)
    {entry : WALEntry}
    (small : (encodeEntry entry).length < frameSize config) :
    appendEntry config active entry = (active, false) := by
  have fits : ¬ (encodeEntry entry).length > frameSize config := by omega
  have room : makeRoom config active (encodeEntry entry) = (active, true) := by
    rw [makeRoom, if_neg (fun filled => filled.1 (List.isEmpty_iff.mpr empty))]
  have refused : active.segment.staging.isEmpty = true ∧
      ¬ hasFrameCapacity config active.segment = true :=
    ⟨List.isEmpty_iff.mpr empty, full⟩
  simp only [appendEntry, if_neg fits, room, if_pos refused]

theorem committed_steps
    (versions : List (Option IndexSlots))
    (opened : m.active = some active)
    (capacity : hasFrameCapacity config active.segment = true)
    (entry : WALEntry) :
    WalSteps config ⟨m, versions⟩ [entry]
      ⟨m.setActive (committed config active entry),
        versions ++ [(committed config active entry).disk.index]⟩ := by
  have staged := stage_step m versions capacity entry
  rw [setActive_self opened] at staged
  have flushes : WalStep config
      ⟨m.setActive (stage active (encodeEntry entry)), versions⟩ []
      ⟨m.setActive (committed config active entry),
        versions ++ [(committed config active entry).disk.index]⟩ :=
    .flush (setActive_active m (stage active (encodeEntry entry)))
      (staging_stage active entry) capacity
  exact staged.trans (.single flushes)

theorem stage_of_empty
    (empty : active.segment.staging = []) (entry : WALEntry) :
    (stage active (encodeEntry entry)).segment.staging = records [entry] := by
  simp only [stage, empty, List.nil_append, records_singleton, encodeEntry]

theorem committed_placed
    (placed : Placed config m active older last)
    (empty : active.segment.staging = []) (entry : WALEntry) :
    Placed config (m.setActive (committed config active entry))
      (committed config active entry) older
      (last.add active.segment.stagingFrame [entry]) := by
  have staged : Placed config
      (m.setActive (stage active (encodeEntry entry)))
      (stage active (encodeEntry entry)) older last :=
    placed.restage rfl rfl rfl
  have commits := staged.commitFrame [entry]
    (active.segment.entriesInStaging + 1)
  rw [← stage_of_empty empty] at commits
  exact commits.restage rfl rfl rfl

theorem committed_marked
    (marked : Watermarked versions active older last)
    (empty : active.segment.staging = []) (entry : WALEntry) :
    Watermarked
      (versions ++ [(committed config active entry).disk.index])
      (committed config active entry) older
      (last.add active.segment.stagingFrame [entry]) := by
  have staged : Watermarked versions (stage active (encodeEntry entry)) older
      last := marked.restage rfl rfl rfl
  have commits := staged.commitFrame config [entry]
    (active.segment.entriesInStaging + 1)
  rw [← stage_of_empty empty] at commits
  exact commits.restage rfl rfl rfl

end

section

variable {config : WalConfig} {state : Tracked} {acked : List WALEntry}
variable {active : ActiveSegment} {older : List SegmentLog}
variable {last : SegmentLog} {entry : WALEntry}

theorem Stands.put
    (stands : Stands config state acked active older last)
    (capacity : hasFrameCapacity config active.segment = true)
    (small : (encodeEntry entry).length < frameSize config) (now : UInt64) :
    ∃ state' active', Stands config state' (acked ++ [entry]) active' older
        (last.add active.segment.stagingFrame [entry]) ∧
      active'.segment.stagingFrame = active.segment.stagingFrame + 1 ∧
      state.versions ⊆ state'.versions := by
  have appended :=
    appendEntry_synced stands.fsync stands.empty capacity small
  have called : call config state.wal (.writeEntry entry now) =
      .ok (state.wal.setActive (committed config active entry)) := by
    simp only [call, writeEntry, stands.placed.opened, appended]
  have steps := committed_steps state.versions stands.placed.opened capacity
    entry
  have later : Stands config
      ⟨state.wal.setActive (committed config active entry),
        state.versions ++ [(committed config active entry).disk.index]⟩
      (acked ++ [entry]) (committed config active entry) older
      (last.add active.segment.stagingFrame [entry]) :=
    { run := .called (.writeEntry entry now) stands.run called steps
      placed := committed_placed stands.placed stands.empty entry
      marked := committed_marked stands.marked stands.empty entry
      empty := rfl
      fsync := stands.fsync }
  exact ⟨_, _, later, rfl, List.subset_append_left _ _⟩

/-- As many puts as there are free frames. -/
theorem Stands.fill
    (stands : Stands config state acked active older last)
    (small : (encodeEntry entry).length < frameSize config) (now : UInt64)
    (count : Nat)
    (room : active.segment.stagingFrame + count ≤ dataFrameCount config + 1) :
    ∃ state' active' last',
      Stands config state' (acked ++ List.replicate count entry) active' older
        last' ∧
      last'.id = last.id ∧
      active'.segment.stagingFrame = active.segment.stagingFrame + count ∧
      state.versions ⊆ state'.versions := by
  induction count with
  | zero =>
      refine ⟨state, active, last, ?_, rfl, rfl, List.Subset.refl _⟩
      simpa using stands
  | succ count inductionHypothesis =>
      obtain ⟨state₁, active₁, last₁, stands₁, id₁, frame₁, kept₁⟩ :=
        inductionHypothesis (by omega)
      have capacity : hasFrameCapacity config active₁.segment = true := by
        have positive := stands₁.placed.positive
        simp only [hasFrameCapacity, decide_eq_true_eq]
        omega
      obtain ⟨state₂, active₂, stands₂, frame₂, kept₂⟩ :=
        stands₁.put capacity small now
      refine ⟨state₂, active₂, last₁.add active₁.segment.stagingFrame [entry],
        ?_, id₁, by omega, List.Subset.trans kept₁ kept₂⟩
      rw [List.replicate_succ', ← List.append_assoc]
      exact stands₂

/-- A put that finds no free frame starts a segment, whose header has the
watermark of the old one. -/
theorem Stands.turn
    (stands : Stands config state acked active older last)
    (full : ¬ hasFrameCapacity config active.segment = true)
    (small : (encodeEntry entry).length < frameSize config) (now : UInt64) :
    ∃ state' active' last', Stands config state' (acked ++ [entry]) active'
        (older ++ [last]) last' ∧
      active'.segment.stagingFrame = 2 ∧
      ∃ version ∈ state'.versions, ∃ header,
        version.bind IndexSlots.readLatest = some header ∧
        header.segmentId = last'.id ∧
        mark header = watermark (older ++ [last]) := by
  have placed := stands.placed
  have opened := placed.opened
  obtain ⟨fresh, freshPlaced, holding⟩ := placed_startSegment
    (m := sealSegment state.wal active.segment.segmentId)
    placed.dirs placed.ascending placed.numbered placed.numberedFrom
    placed.above now
  have index : state.wal.disk.index = some active.slots := by
    rw [← active_disk opened]
    exact stands.marked.index
  have found : mark (openIndex state.wal.disk state.wal.counter
      (frameSize config)).2 = watermark (older ++ [last]) := by
    simp only [openIndex, index, Option.getD_some, stands.marked.latest]
    exact stands.marked.marked
  have freshMarked := watermarked_startSegment
    (m := sealSegment state.wal active.segment.segmentId) found now
    freshPlaced.opened
  have isFresh : Fresh config (startSegment config
      (sealSegment state.wal active.segment.segmentId) now) :=
    startSegment_fresh _ now
  obtain ⟨free, freeOpened, empty, capacity⟩ := isFresh
  rw [freshPlaced.opened, Option.some.injEq] at freeOpened
  subst freeOpened
  have refused := appendEntry_full stands.empty full small
  have rotated : rotateSegment config (state.wal.setActive active) now =
      .ok (startSegment config
        (sealSegment state.wal active.segment.segmentId) now) := by
    rw [setActive_self opened]
    simp only [rotateSegment, opened, flushStaging_empty stands.empty,
      setActive_self opened]
  have appended := appendEntry_synced stands.fsync empty capacity small
  have called : call config state.wal (.writeEntry entry now) =
      .ok ((startSegment config
        (sealSegment state.wal active.segment.segmentId) now).setActive
          (committed config fresh entry)) := by
    simp only [call, writeEntry, opened, refused, rotated, bind, Except.bind,
      freshPlaced.opened, appended]
  have turns : WalSteps config state []
      ⟨startSegment config
          (sealSegment state.wal active.segment.segmentId) now,
        [(startSegment config
          (sealSegment state.wal active.segment.segmentId) now).disk.index]⟩ :=
    .single (.rotate now opened stands.empty)
  have steps := turns.trans
    (committed_steps _ freshPlaced.opened capacity entry)
  obtain ⟨header, front, read, name, isPrefix, kept⟩ :=
    freshMarked.versions _ (List.mem_singleton_self _)
  rw [List.prefix_nil.mp isPrefix] at kept
  have later : Stands config
      ⟨(startSegment config
          (sealSegment state.wal active.segment.segmentId) now).setActive
            (committed config fresh entry),
        [(startSegment config
          (sealSegment state.wal active.segment.segmentId) now).disk.index] ++
            [(committed config fresh entry).disk.index]⟩
      (acked ++ [entry]) (committed config fresh entry) (older ++ [last])
      (SegmentLog.add ⟨state.wal.counter, now, []⟩
        fresh.segment.stagingFrame [entry]) :=
    { run := .called (.writeEntry entry now) stands.run called steps
      placed := committed_placed freshPlaced empty entry
      marked := committed_marked freshMarked empty entry
      empty := rfl
      fsync := stands.fsync }
  have first : fresh.segment.stagingFrame = 1 := by
    have same := Option.some.inj freshPlaced.opened
    subst same
    rfl
  refine ⟨_, _, _, later, congrArg Nat.succ first, _, List.mem_cons_self ..,
    header, read, name, ?_⟩
  rw [kept, watermark, watermark]
  simp

theorem stands_start
    (config : WalConfig) (fsync : config.syncMode = .fsync)
    (start : UInt64) :
    ∃ state active last, Stands config state [] active [] last ∧
      active.segment.stagingFrame = 1 := by
  have empty : (new noDisk).disk.dirs =
      ([] : List SegmentLog).map (SegmentLog.dir config) := rfl
  obtain ⟨active, placed, holding⟩ := placed_startSegment empty
    List.Pairwise.nil (by simp) (by simp) (by simp) start
  have found : mark (openIndex noDisk 0 (frameSize config)).2 =
      watermark [] := rfl
  have marked := watermarked_startSegment (m := new noDisk) found start
    placed.opened
  have first : active.segment.stagingFrame = 1 := by
    have same := Option.some.inj placed.opened
    subst same
    rfl
  have stands : Stands config
      ⟨startSegment config (new noDisk) start,
        [(startSegment config (new noDisk) start).disk.index]⟩ [] active []
      ⟨0, start, []⟩ :=
    { run := .opened start rfl
      placed := placed
      marked := marked
      empty := holding.staging
      fsync := fsync }
  exact ⟨_, active, _, stands, first⟩

end

def shortPut : WALEntry := .put "k" (.bool true) 2

def longPut : WALEntry := .put "key" (.bool true) 2

/-- One put, and the index of its segment's start survives, which names no
frame. -/
theorem lost_commit_recovers :
    ∃ state, CallRun WalHandle.smallConfig state [shortPut] ∧
      ∃ version ∈ state.versions,
        readEntriesFromDisk WalHandle.smallConfig
          (crashImage state.wal version none) = .ok [shortPut] := by
  let first := startSegment WalHandle.smallConfig (new noDisk) 1
  have opened : CallRun WalHandle.smallConfig ⟨first, [first.disk.index]⟩
      [] := .opened 1 rfl
  have isFresh : Fresh WalHandle.smallConfig first := startSegment_fresh _ 1
  obtain ⟨active, activeEq, empty, capacity⟩ := isFresh
  have fsync : WalHandle.smallConfig.syncMode = .fsync := rfl
  have small : (encodeEntry shortPut).length <
      frameSize WalHandle.smallConfig := by decide
  have appended := appendEntry_synced fsync empty capacity small
  have called : call WalHandle.smallConfig first (.writeEntry shortPut 2) =
      .ok (first.setActive
        (committed WalHandle.smallConfig active shortPut)) := by
    simp only [call, writeEntry, activeEq, appended]
  have steps := committed_steps [first.disk.index] activeEq capacity shortPut
  have run : CallRun WalHandle.smallConfig _ [shortPut] :=
    .called (.writeEntry shortPut 2) opened called steps
  have recordable : ∀ entry ∈ [shortPut], entry.Recordable := by
    intro entry member
    rw [List.mem_singleton.mp member]
    exact ⟨by decide, rfl⟩
  have same := Option.some.inj activeEq
  subst same
  refine ⟨_, run, first.disk.index, List.mem_cons_self .., ?_⟩
  apply (stale_index_recovery WalHandle.smallConfig fsync _ _ run recordable
    first.disk.index none).mpr
  refine ⟨?_, List.pairwise_singleton _ _⟩
  intro header read dir inside name content found named
  have noFrame : header.committedFrame = 0 := by
    cases read
    rfl
  have here : lastScanned dir = 1 := by
    rw [List.mem_singleton.mp inside]
    rfl
  omega

/-- 64 puts fill the first segment.  Of the 64 that go to the second one the
last is longer.  If then only the header of the rotation survives, the last
frame is cut at the offset of the frame with its number in the first
segment. -/
theorem carried_watermark_cuts_last_put :
    ∃ state, CallRun WalHandle.smallConfig state
        (List.replicate 127 shortPut ++ [longPut]) ∧
      ∃ version ∈ state.versions,
        readEntriesFromDisk WalHandle.smallConfig
            (crashImage state.wal version none) ≠
          .ok (List.replicate 127 shortPut ++ [longPut]) := by
  have short : (encodeEntry shortPut).length <
      frameSize WalHandle.smallConfig := by decide
  have long : (encodeEntry longPut).length <
      frameSize WalHandle.smallConfig := by decide
  have frames : dataFrameCount WalHandle.smallConfig = 64 := rfl
  obtain ⟨state₀, active₀, last₀, stands₀, frame₀⟩ :=
    stands_start WalHandle.smallConfig rfl 1
  obtain ⟨state₁, active₁, last₁, stands₁, -, frame₁, -⟩ :=
    stands₀.fill short 2 63 (by omega)
  have capacity₁ : hasFrameCapacity WalHandle.smallConfig active₁.segment =
      true := by
    simp only [hasFrameCapacity, decide_eq_true_eq]
    omega
  obtain ⟨state₂, active₂, stands₂, frame₂, -⟩ :=
    stands₁.put capacity₁ short 2
  have full : ¬ hasFrameCapacity WalHandle.smallConfig active₂.segment =
      true := by
    simp only [hasFrameCapacity, decide_eq_true_eq]
    omega
  obtain ⟨state₃, active₃, last₃, stands₃, frame₃, version, survived, header,
      read, name, carried⟩ := stands₂.turn full short 2
  obtain ⟨state₄, active₄, last₄, stands₄, id₄, frame₄, kept₄⟩ :=
    stands₃.fill short 2 62 (by omega)
  have capacity₄ : hasFrameCapacity WalHandle.smallConfig active₄.segment =
      true := by
    simp only [hasFrameCapacity, decide_eq_true_eq]
    omega
  obtain ⟨state₅, active₅, stands₅, frame₅, kept₅⟩ :=
    stands₄.put capacity₄ long 2
  have acked : [] ++ List.replicate 63 shortPut ++ [shortPut] ++ [shortPut] ++
      List.replicate 62 shortPut ++ [longPut] =
        List.replicate 127 shortPut ++ [longPut] := rfl
  have run := stands₅.run
  rw [acked] at run
  have recordable : ∀ entry ∈ List.replicate 127 shortPut ++ [longPut],
      entry.Recordable := by
    intro entry member
    rcases List.mem_append.mp member with front | back
    · rw [List.eq_of_mem_replicate front]
      exact ⟨by decide, rfl⟩
    · rw [List.mem_singleton.mp back]
      exact ⟨by decide, rfl⟩
  refine ⟨state₅, run, version, kept₅ (kept₄ survived), ?_⟩
  intro recovered
  obtain ⟨logs, described, whole⟩ :=
    run.described rfl recordable version none
  rw [← whole] at recovered
  have covers := ((readEntriesFromDisk_iff described).mp recovered).1
  have named : header.committedFrame = 64 := by
    have number := congrArg Prod.fst carried
    rw [watermark_add] at number
    exact number.trans (by omega)
  have offset : header.committedOffset =
      (records [shortPut]).length % 2 ^ 32 := by
    have bytes := congrArg Prod.snd carried
    rw [watermark_add] at bytes
    exact bytes
  have placed := stands₅.placed
  have below := stands₄.placed.next
  have numbered := stands₄.placed.numbered last₄ (by simp)
  have inside : (last₄.add active₄.segment.stagingFrame [longPut]).dir
      WalHandle.smallConfig ∈
        (crashImage state₅.wal version none).dirs := by
    simp [crashImage, placed.dirs]
  have scanned : lastScanned
      ((last₄.add active₄.segment.stagingFrame [longPut]).dir
        WalHandle.smallConfig) = header.committedFrame := by
    rw [lastScanned_add [longPut] below]
    omega
  have recordableLong : ∀ entry ∈ [longPut], entry.Recordable := by
    intro entry member
    rw [List.mem_singleton.mp member]
    exact ⟨by decide, rfl⟩
  rcases covers header read _ inside (id₄.trans name.symm) _
    (frameContent_add [longPut] numbered below) scanned with zero | within
  · rw [offset] at zero
    exact absurd zero (by decide)
  · rw [usedBytes_frameFile recordableLong, offset] at within
    exact absurd within.1 (by decide)

end IndexedWal

end F4kvsLsm
