import F4kvsLsm.Storage.RoundTrip
import F4kvsLsm.Wal.Handle
import F4kvsLsm.Wal.IndexedSteps

/-!
# The indexed log holds what it was given

The frame files are described by the entries that were put into them, segment
by segment.  Every step of a call either stages an entry, moves what is staged
into the next frame of the last segment, or starts a segment, so the frames
followed by the staging buffer are the entries that were accepted, in order.
-/

namespace F4kvsLsm

open ByteCodec Fallible

namespace IndexedWal

open IndexedWalSegment

/-- What the frames of a segment hold, by frame number. -/
structure SegmentLog where
  id : Nat
  created : UInt64
  chunks : List (Nat × List WALEntry)

namespace SegmentLog

/-- The directory with its frame files. -/
def dir (config : WalConfig) (log : SegmentLog) : FramesDir :=
  ⟨log.id, log.created, log.chunks.map fun chunk =>
    (chunk.1, frameFile config (records chunk.2))⟩

def entries (log : SegmentLog) : List WALEntry :=
  log.chunks.flatMap (·.2)

/-- One more frame. -/
def add (log : SegmentLog) (frame : Nat) (chunk : List WALEntry) :
    SegmentLog :=
  { log with chunks := log.chunks ++ [(frame, chunk)] }

theorem entries_add (log : SegmentLog) (frame : Nat)
    (chunk : List WALEntry) :
    (log.add frame chunk).entries = log.entries ++ chunk := by
  simp [entries, add]

end SegmentLog

/-- The number of the last frame and its bytes as the index keeps them. -/
def watermark (logs : List SegmentLog) : Nat × Nat :=
  match (logs.flatMap SegmentLog.chunks).getLast? with
  | none => (0, 0)
  | some chunk => (chunk.1, (records chunk.2).length % 2 ^ 32)

def mark (header : WalIndexHeader) : Nat × Nat :=
  (header.committedFrame, header.committedOffset)

/-- The entries of all frames. -/
def written (older : List SegmentLog) (last : SegmentLog) : List WALEntry :=
  (older ++ [last]).flatMap SegmentLog.entries

/-- An open manager whose disk holds the frames of `older` and `last`. -/
structure Placed (config : WalConfig) (m : IndexedWal)
    (active : ActiveSegment) (older : List SegmentLog) (last : SegmentLog) :
    Prop where
  opened : m.active = some active
  dirs : m.disk.dirs = (older ++ [last]).map (SegmentLog.dir config)
  ascending : (older ++ [last]).Pairwise fun a b => a.id < b.id
  numbered : ∀ log ∈ older ++ [last],
    log.chunks.Pairwise fun a b => a.1 < b.1
  numberedFrom : ∀ log ∈ older ++ [last], ∀ chunk ∈ log.chunks, 1 ≤ chunk.1
  name : last.id = active.segment.segmentId
  next : ∀ chunk ∈ last.chunks, chunk.1 < active.segment.stagingFrame
  positive : 1 ≤ active.segment.stagingFrame
  above : ∀ log ∈ older ++ [last], log.id < m.counter

/-- The staging buffer holds the records of `pending`, and a frame is free
for them. -/
structure Holding (config : WalConfig) (active : ActiveSegment)
    (pending : List WALEntry) : Prop where
  staging : active.segment.staging = records pending
  count : active.segment.entriesInStaging = pending.length
  backed : Backed config active

/-- The index names the last segment and its last frame, or the last frame of
an earlier segment while the last one is empty.  Its versions since the last
sync are those after some first frames of the last segment. -/
structure Watermarked (versions : List (Option IndexSlots))
    (active : ActiveSegment) (older : List SegmentLog) (last : SegmentLog) :
    Prop where
  index : active.disk.index = some active.slots
  latest : active.slots.readLatest = some active.latest
  name : active.latest.segmentId = last.id
  marked : mark active.latest = watermark (older ++ [last])
  versions : ∀ version ∈ versions, ∃ header front,
    version.bind IndexSlots.readLatest = some header ∧
    header.segmentId = last.id ∧ front <+: last.chunks ∧
    mark header = watermark (older ++ [{ last with chunks := front }])

section

variable {config : WalConfig} {m : IndexedWal} {active : ActiveSegment}
variable {older : List SegmentLog} {last : SegmentLog}
variable {pending : List WALEntry} {versions : List (Option IndexSlots)}

/-! ## Steps -/

theorem putFrame_dir
    {frame : Nat} (below : ∀ chunk ∈ last.chunks, chunk.1 < frame)
    (chunk : List WALEntry) :
    { last.dir config with
      frames := putFrame (last.dir config).frames frame
        (frameFile config (records chunk)) } =
      (last.add frame chunk).dir config := by
  have kept : (last.dir config).frames.filter
      (fun file => file.1 ≠ frame) = (last.dir config).frames := by
    rw [List.filter_eq_self]
    intro file member
    obtain ⟨old, inside, rfl⟩ := List.mem_map.mp member
    simpa using Nat.ne_of_lt (below old inside)
  rw [putFrame, kept]
  simp [SegmentLog.dir, SegmentLog.add]

theorem putFrameFile_placed
    (placed : Placed config m active older last) (chunk : List WALEntry) :
    (writeFrameFile config m.disk active.segment.segmentId
        active.segment.stagingFrame (records chunk)).dirs =
      (older ++ [last.add active.segment.stagingFrame chunk]).map
        (SegmentLog.dir config) := by
  have ascending := placed.ascending
  rw [List.pairwise_append] at ascending
  obtain ⟨-, -, below⟩ := ascending
  have untouched : older.map (fun log =>
      if (log.dir config).segmentId = active.segment.segmentId then
        { log.dir config with
          frames := putFrame (log.dir config).frames
            active.segment.stagingFrame (frameFile config (records chunk)) }
      else log.dir config) = older.map (SegmentLog.dir config) := by
    apply List.map_congr_left
    intro log member
    have less := below log member last (by simp)
    rw [placed.name] at less
    exact if_neg (Nat.ne_of_lt less)
  have own : (last.dir config).segmentId = active.segment.segmentId :=
    placed.name
  simp only [writeFrameFile, putFrameFile, placed.dirs, List.map_map,
    List.map_append]
  congr 1
  simp only [List.map_cons, List.map_nil, Function.comp_apply, if_pos own]
  rw [← putFrame_dir placed.next]

/-- Committing a frame puts its entries behind what is there. -/
theorem Placed.commitFrame
    (placed : Placed config m active older last) (chunk : List WALEntry)
    (count : Nat) :
    Placed config
      (m.setActive (commitFrame config active (records chunk) count))
      (commitFrame config active (records chunk) count) older
      (last.add active.segment.stagingFrame chunk) := by
  have sameDisk := active_disk placed.opened
  refine
    { opened := rfl
      dirs := ?_
      ascending := ?_
      numbered := ?_
      numberedFrom := ?_
      name := placed.name
      next := ?_
      positive := Nat.succ_pos _
      above := ?_ }
  · have dirs := putFrameFile_placed placed chunk
    rw [← sameDisk] at dirs
    exact dirs
  · have ascending := placed.ascending
    rw [List.pairwise_append] at ascending ⊢
    refine ⟨ascending.1, List.pairwise_singleton _ _, ?_⟩
    intro log member other here
    rw [List.mem_singleton] at here
    subst here
    exact ascending.2.2 log member last (by simp)
  · intro log member
    rcases List.mem_append.mp member with old | new
    · exact placed.numbered log (List.mem_append_left _ old)
    · rw [List.mem_singleton] at new
      subst new
      rw [SegmentLog.add, List.pairwise_append]
      refine ⟨placed.numbered last (by simp), List.pairwise_singleton _ _,
        ?_⟩
      intro file inside other here
      rw [List.mem_singleton] at here
      subst here
      exact placed.next file inside
  · intro log member
    rcases List.mem_append.mp member with old | new
    · exact placed.numberedFrom log (List.mem_append_left _ old)
    · rw [List.mem_singleton] at new
      subst new
      intro file inside
      rcases List.mem_append.mp inside with before | here
      · exact placed.numberedFrom last (by simp) file before
      · rw [List.mem_singleton] at here
        subst here
        exact placed.positive
  · intro file inside
    rcases List.mem_append.mp inside with before | here
    · exact Nat.lt_succ_of_lt (placed.next file before)
    · rw [List.mem_singleton] at here
      subst here
      exact Nat.lt_succ_self _
  · intro log member
    rcases List.mem_append.mp member with old | new
    · exact placed.above log (List.mem_append_left _ old)
    · rw [List.mem_singleton] at new
      subst new
      exact placed.above last (by simp)

/-- Only the staging buffer differs. -/
theorem Placed.restage
    (placed : Placed config m active older last) {active' : ActiveSegment}
    (disk : active'.disk = active.disk)
    (name : active'.segment.segmentId = active.segment.segmentId)
    (frame : active'.segment.stagingFrame = active.segment.stagingFrame) :
    Placed config (m.setActive active') active' older last := by
  refine
    { opened := rfl
      dirs := ?_
      ascending := placed.ascending
      numbered := placed.numbered
      numberedFrom := placed.numberedFrom
      name := placed.name.trans name.symm
      next := ?_
      positive := ?_
      above := placed.above }
  · change active'.disk.dirs = _
    rw [disk, active_disk placed.opened]
    exact placed.dirs
  · rw [frame]
    exact placed.next
  · rw [frame]
    exact placed.positive

theorem watermark_add
    (older : List SegmentLog) (last : SegmentLog) (frame : Nat)
    (chunk : List WALEntry) :
    watermark (older ++ [last.add frame chunk]) =
      (frame, (records chunk).length % 2 ^ 32) := by
  have chunks :
      (older ++ [last.add frame chunk]).flatMap SegmentLog.chunks =
        (older ++ [last]).flatMap SegmentLog.chunks ++ [(frame, chunk)] := by
    simp [SegmentLog.add]
  rw [watermark, chunks, List.getLast?_concat]

theorem Watermarked.commitFrame
    (config : WalConfig) (marked : Watermarked versions active older last)
    (chunk : List WALEntry) (count : Nat) :
    Watermarked
      (versions ++
        [(commitFrame config active (records chunk) count).disk.index])
      (commitFrame config active (records chunk) count) older
      (last.add active.segment.stagingFrame chunk) := by
  obtain ⟨header, latest⟩ := IndexSlots.commit_spec
    (IndexSlots.bounded_readLatest marked.latest)
    { active.latest with
      committedFrame := active.segment.stagingFrame
      committedOffset := (records chunk).length % 2 ^ 32
      entryCount := active.latest.entryCount + count }
  have name : (IndexedWalSegment.commitFrame config active (records chunk)
      count).latest.segmentId = last.id := by
    simp only [IndexedWalSegment.commitFrame, header]
    exact marked.name
  have moved : mark (IndexedWalSegment.commitFrame config active
      (records chunk) count).latest =
        watermark (older ++ [last.add active.segment.stagingFrame chunk]) := by
    rw [watermark_add]
    simp only [mark, IndexedWalSegment.commitFrame, header]
  refine ⟨rfl, latest, name, moved, ?_⟩
  intro version member
  rcases List.mem_append.mp member with old | new
  · obtain ⟨before, front, read, named, isPrefix, kept⟩ :=
      marked.versions version old
    exact ⟨before, front, read, named,
      isPrefix.trans (List.prefix_append _ _), kept⟩
  · rw [List.mem_singleton] at new
    subst new
    exact ⟨_, _, latest, name, List.prefix_rfl, moved⟩

theorem Watermarked.restage
    (marked : Watermarked versions active older last)
    {active' : ActiveSegment} (disk : active'.disk = active.disk)
    (slots : active'.slots = active.slots)
    (latest : active'.latest = active.latest) :
    Watermarked versions active' older last := by
  refine ⟨?_, ?_, ?_, ?_, marked.versions⟩
  · rw [disk, slots]
    exact marked.index
  · rw [slots, latest]
    exact marked.latest
  · rw [latest]
    exact marked.name
  · rw [latest]
    exact marked.marked

/-- The header of a new segment keeps the watermark that it finds. -/
theorem watermarked_startSegment
    {m : IndexedWal} {active : ActiveSegment} {logs : List SegmentLog}
    (found : mark (openIndex m.disk m.counter (frameSize config)).2 =
      watermark logs) (now : UInt64)
    (opened : (startSegment config m now).active = some active) :
    Watermarked [(startSegment config m now).disk.index] active logs
      ⟨m.counter, now, []⟩ := by
  obtain ⟨header, latest⟩ := IndexSlots.commit_spec
    (openIndex_bounded m.disk m.counter (frameSize config))
    { (openIndex m.disk m.counter (frameSize config)).2 with
      segmentId := m.counter, frameSize := frameSize config }
  have same := Option.some.inj opened
  subst same
  have name := congrArg WalIndexHeader.segmentId header
  have kept : mark
      ((openIndex m.disk m.counter (frameSize config)).1.commit
        (openIndex m.disk m.counter (frameSize config)).2
        { (openIndex m.disk m.counter (frameSize config)).2 with
          segmentId := m.counter, frameSize := frameSize config }).2 =
        watermark (logs ++ [⟨m.counter, now, []⟩]) := by
    rw [header]
    have chunks : (logs ++ [(⟨m.counter, now, []⟩ : SegmentLog)]).flatMap
        SegmentLog.chunks = logs.flatMap SegmentLog.chunks := by simp
    rw [watermark, chunks]
    exact found
  refine ⟨rfl, latest, name, kept, ?_⟩
  intro version member
  rw [List.mem_singleton] at member
  subst member
  exact ⟨_, [], latest, name, List.nil_prefix, kept⟩

/-- A new segment behind the others. -/
theorem placed_startSegment
    {m : IndexedWal} {logs : List SegmentLog}
    (dirs : m.disk.dirs = logs.map (SegmentLog.dir config))
    (ascending : logs.Pairwise fun a b => a.id < b.id)
    (numbered : ∀ log ∈ logs, log.chunks.Pairwise fun a b => a.1 < b.1)
    (numberedFrom : ∀ log ∈ logs, ∀ chunk ∈ log.chunks, 1 ≤ chunk.1)
    (above : ∀ log ∈ logs, log.id < m.counter) (now : UInt64) :
    ∃ active, Placed config (startSegment config m now) active logs
        ⟨m.counter, now, []⟩ ∧
      Holding config active [] := by
  have aboveDirs : ∀ dir ∈ m.disk.dirs, dir.segmentId < m.counter := by
    intro dir member
    rw [dirs] at member
    obtain ⟨log, inside, rfl⟩ := List.mem_map.mp member
    exact above log inside
  refine ⟨_,
    { opened := rfl
      dirs := ?_
      ascending := ?_
      numbered := ?_
      numberedFrom := ?_
      name := rfl
      next := by simp
      positive := Nat.le_refl 1
      above := ?_ },
    ⟨rfl, rfl, backed_of_empty rfl⟩⟩
  · rw [startSegment_dirs aboveDirs, dirs, List.map_append]
    rfl
  · rw [List.pairwise_append]
    refine ⟨ascending, List.pairwise_singleton _ _, ?_⟩
    intro log member other here
    rw [List.mem_singleton] at here
    subst here
    exact above log member
  · intro log member
    rcases List.mem_append.mp member with old | new
    · exact numbered log old
    · rw [List.mem_singleton] at new
      subst new
      exact List.Pairwise.nil
  · intro log member
    rcases List.mem_append.mp member with old | new
    · exact numberedFrom log old
    · rw [List.mem_singleton] at new
      subst new
      simp
  · intro log member
    change log.id < m.counter + 1
    rcases List.mem_append.mp member with old | new
    · exact Nat.lt_succ_of_lt (above log old)
    · rw [List.mem_singleton] at new
      subst new
      exact Nat.lt_succ_self _

theorem Holding.stage
    (holding : Holding config active pending) (entry : WALEntry)
    (capacity : hasFrameCapacity config active.segment = true) :
    Holding config (stage active (encodeEntry entry))
      (pending ++ [entry]) := by
  refine ⟨?_, ?_, fun _ => capacity⟩
  · simp only [IndexedWalSegment.stage, encodeEntry, holding.staging,
      records_append, records_singleton]
  · simp [IndexedWalSegment.stage, holding.count]

theorem Holding.pending_nil
    (holding : Holding config active pending)
    (empty : active.segment.staging = []) : pending = [] := by
  rw [holding.staging] at empty
  exact (records_eq_nil_iff pending).mp empty

end

/-- A manager that has accepted `accepted`, of which the first entries,
`durable`, are in frames. -/
def Accepted (config : WalConfig) (durable : List WALEntry)
    (state : Tracked) (accepted : List WALEntry) : Prop :=
  ∃ active older last pending, Placed config state.wal active older last ∧
    Watermarked state.versions active older last ∧
    Holding config active pending ∧
    written older last ++ pending = accepted ∧
    durable <+: written older last

theorem written_add
    (older : List SegmentLog) (last : SegmentLog) (frame : Nat)
    (chunk : List WALEntry) :
    written older (last.add frame chunk) = written older last ++ chunk := by
  simp [written, SegmentLog.entries_add]

/-- Every step keeps what was accepted and adds the entries it takes over. -/
theorem WalStep.accepted
    {config : WalConfig} {state state' : Tracked}
    {durable accepted taken : List WALEntry}
    (step : WalStep config state taken state')
    (before : Accepted config durable state accepted) :
    Accepted config durable state' (accepted ++ taken) := by
  obtain ⟨active, older, last, pending, placed, marked, holding, rfl,
    inFrames⟩ := before
  have opens := placed.opened
  cases step with
  | stage entry opened capacity =>
      rw [opens, Option.some.injEq] at opened
      subst opened
      refine ⟨_, older, last, pending ++ [entry],
        placed.restage rfl rfl rfl, marked.restage rfl rfl rfl,
        holding.stage entry capacity, ?_, inFrames⟩
      rw [List.append_assoc]
  | flush opened filled capacity =>
      rw [opens, Option.some.injEq] at opened
      subst opened
      have committed :=
        placed.commitFrame pending active.segment.entriesInStaging
      have moved := marked.commitFrame config pending
        active.segment.entriesInStaging
      rw [← holding.staging] at committed moved
      refine ⟨_, older, _, [], committed.restage rfl rfl rfl,
        moved.restage rfl rfl rfl, ⟨rfl, rfl, backed_of_empty rfl⟩, ?_, ?_⟩
      · rw [written_add]
      · rw [written_add]
        exact inFrames.trans (List.prefix_append _ _)
  | oversize entry opened empty capacity =>
      rw [opens, Option.some.injEq] at opened
      subst opened
      have nothing := holding.pending_nil empty
      subst nothing
      have committed := placed.commitFrame [entry] 1
      have moved := marked.commitFrame config [entry] 1
      rw [records_singleton] at committed moved
      refine ⟨_, older, _, [], committed, moved,
        ⟨holding.staging, holding.count, backed_of_empty empty⟩, ?_, ?_⟩
      · rw [written_add, List.append_nil, List.append_nil]
      · rw [written_add]
        exact inFrames.trans (List.prefix_append _ _)
  | @rotate wal _ _ now opened empty =>
      rw [opens, Option.some.injEq] at opened
      subst opened
      have nothing := holding.pending_nil empty
      subst nothing
      obtain ⟨active', placed', holding'⟩ := placed_startSegment
        (m := sealSegment wal active.segment.segmentId)
        placed.dirs placed.ascending placed.numbered placed.numberedFrom
        placed.above now
      have index : wal.disk.index = some active.slots := by
        rw [← active_disk opens]
        exact marked.index
      have found : mark (openIndex wal.disk wal.counter
          (frameSize config)).2 = watermark (older ++ [last]) := by
        simp only [openIndex, index, Option.getD_some, marked.latest]
        exact marked.marked
      have moved := watermarked_startSegment
        (m := sealSegment wal active.segment.segmentId) found now
        placed'.opened
      have same : written (older ++ [last]) ⟨wal.counter, now, []⟩ =
          written older last := by
        simp [written, SegmentLog.entries]
      refine ⟨active', older ++ [last], _, [], placed', moved, holding',
        ?_, ?_⟩
      · simp only [List.append_nil]
        exact same
      · exact same ▸ inFrames

theorem WalSteps.accepted
    {config : WalConfig} {state state' : Tracked}
    {durable accepted taken : List WALEntry}
    (steps : WalSteps config state taken state')
    (before : Accepted config durable state accepted) :
    Accepted config durable state' (accepted ++ taken) :=
  steps.keeps (Accepted config durable)
    (fun _ _ _ _ held step => step.accepted held) before

/-! ## Reading the frame files -/

section

variable {config : WalConfig}

/-- The entries of all frame files, segment after segment, whatever the index
says. -/
def decodeFrameFiles (config : WalConfig) (disk : IndexedDisk) :
    Except LsmError (List WALEntry) := do
  let parts ← (sortDirs disk.dirs).mapM fun dir =>
    readCommittedEntries (frameSize config) dir
      (readState (frameSize config) none dir)
  pure parts.flatten

/-- The frames of a segment can be read back. -/
theorem SegmentLog.dirOk
    (config : WalConfig) {log : SegmentLog}
    (numbered : log.chunks.Pairwise fun a b => a.1 < b.1)
    (numberedFrom : ∀ chunk ∈ log.chunks, 1 ≤ chunk.1)
    (recordable : ∀ entry ∈ log.entries, entry.Recordable) :
    DirOk config (log.dir config) ∧
      dirEntries (log.dir config) = log.entries := by
  have decodes : ∀ chunk ∈ log.chunks,
      decodeFrames (frameFile config (records chunk.2)) = .ok chunk.2 := by
    intro chunk member
    apply frameFile_decodes
    intro entry inside
    exact recordable entry (List.mem_flatMap.mpr ⟨chunk, member, inside⟩)
  constructor
  · refine ⟨?_, ?_, ?_, ?_⟩
    · exact List.pairwise_map.mpr numbered
    · intro file member
      obtain ⟨chunk, inside, rfl⟩ := List.mem_map.mp member
      exact numberedFrom chunk inside
    · intro file member
      obtain ⟨chunk, inside, rfl⟩ := List.mem_map.mp member
      exact frameFile_long _
    · intro file member
      obtain ⟨chunk, inside, rfl⟩ := List.mem_map.mp member
      simp [frameEntries, decodes chunk inside]
  · simp only [dirEntries, SegmentLog.dir, SegmentLog.entries,
      List.flatMap_map]
    apply List.flatMap_congr
    intro chunk member
    simp [frameEntries, decodes chunk member]

theorem ascendingDirs_map
    {logs : List SegmentLog}
    (ascending : logs.Pairwise fun a b => a.id < b.id) :
    AscendingDirs (logs.map (SegmentLog.dir config)) :=
  List.pairwise_map.mpr ascending

/-- Without a watermark the frame files are read in full. -/
theorem decodeFrameFiles_placed
    {m : IndexedWal} {active : ActiveSegment} {older : List SegmentLog}
    {last : SegmentLog} (placed : Placed config m active older last)
    (recordable : ∀ entry ∈ written older last, entry.Recordable) :
    decodeFrameFiles config m.disk = .ok (written older last) := by
  have each : ∀ log ∈ older ++ [last],
      readCommittedEntries (frameSize config) (log.dir config)
        (readState (frameSize config) none (log.dir config)) =
          .ok log.entries := by
    intro log member
    have readable : ∀ entry ∈ log.entries, entry.Recordable :=
      fun entry inside =>
        recordable entry (List.mem_flatMap.mpr ⟨log, member, inside⟩)
    obtain ⟨dirOk, entries⟩ := SegmentLog.dirOk config
      (placed.numbered log member) (placed.numberedFrom log member) readable
    have whole : IndexOk
        (readState (frameSize config) none (log.dir config))
        (log.dir config) :=
      fun _ _ _ positive => absurd positive (Nat.lt_irrefl 0)
    rw [readCommittedEntries_ok dirOk whole, entries]
  have walked : (m.disk.dirs.mapM fun dir =>
      readCommittedEntries (frameSize config) dir
        (readState (frameSize config) none dir)) =
      .ok ((older ++ [last]).map SegmentLog.entries) := by
    rw [placed.dirs, List.mapM_map]
    exact mapM_eq_ok each
  have sorted : sortDirs m.disk.dirs = m.disk.dirs := by
    rw [placed.dirs]
    exact sortDirs_eq_self (ascendingDirs_map placed.ascending)
  rw [decodeFrameFiles, sorted, walked]
  rfl

theorem decodeFrames_notJson
    {entries result : List WALEntry} {padding : Nat}
    (fits : ∀ entry ∈ entries, entry.encode.length < 2 ^ 32)
    (decoded : decodeFrames (records entries ++ List.replicate padding 0) =
      .ok result) :
    ∀ entry ∈ entries, entry.holdsJson = false := by
  have framable : ∀ body ∈ entries.map WALEntry.encode,
      Framable (fun _ => true) body := by
    intro body member
    obtain ⟨entry, inside, rfl⟩ := List.mem_map.mp member
    exact ⟨entry.encode_length_ne_zero, fits entry inside, rfl⟩
  rw [decodeFrames, records, scanFrames_frames_append framable,
    scanFrames_zeros, List.append_nil] at decoded
  intro entry member
  obtain ⟨read, here⟩ := mapM_item decoded entry.encode
    (List.mem_map_of_mem member)
  have bound : entry.encode.length < 2 ^ 64 :=
    Nat.lt_trans (fits entry member) (by decide)
  have whole := WALEntry.deserialize_encode
    (WALEntry.fits_of_encode_length bound)
  cases json : entry.holdsJson with
  | false => rfl
  | true =>
      rw [json, if_pos rfl] at whole
      rw [whole] at here
      cases here

theorem frameContent_of_mem
    {dir : FramesDir} {file : Nat × Bytes}
    (ascending : dir.frames.Pairwise fun a b => a.1 < b.1)
    (member : file ∈ dir.frames) :
    frameContent dir file.1 = some file.2 := by
  cases found : frameContent dir file.1 with
  | none =>
      rw [frameContent, Option.map_eq_none_iff, List.find?_eq_none] at found
      exact absurd (decide_eq_true rfl) (found file member)
  | some content =>
      have other := frameContent_eq_some found
      have distinct : (dir.frames.map (·.1)).Nodup :=
        List.pairwise_map.mpr (ascending.imp Nat.ne_of_lt)
      have same := List.inj_on_of_nodup_map distinct other member rfl
      rw [← same]

theorem readCommittedEntries_decodes
    {log : SegmentLog}
    (numbered : log.chunks.Pairwise fun a b => a.1 < b.1)
    (numberedFrom : ∀ chunk ∈ log.chunks, 1 ≤ chunk.1)
    {result : List WALEntry}
    (read : readCommittedEntries (frameSize config) (log.dir config)
      (readState (frameSize config) none (log.dir config)) = .ok result) :
    ∀ chunk ∈ log.chunks, ∃ entries,
      decodeFrames (frameFile config (records chunk.2)) = .ok entries := by
  intro chunk member
  have inside : (chunk.1, frameFile config (records chunk.2)) ∈
      (log.dir config).frames := List.mem_map.mpr ⟨chunk, member, rfl⟩
  have ascending : (log.dir config).frames.Pairwise fun a b => a.1 < b.1 :=
    List.pairwise_map.mpr numbered
  have found := frameContent_of_mem ascending inside
  have bound := le_lastScanned inside
  have positive := numberedFrom chunk member
  rw [readCommittedEntries] at read
  cases walked : (List.range' 1 (max
      (readState (frameSize config) none (log.dir config)).committedFrame
      (lastScanned (log.dir config)))).mapM
      (readFrameAt (frameSize config) (log.dir config)
        (readState (frameSize config) none (log.dir config))
        (max
          (readState (frameSize config) none (log.dir config)).committedFrame
          (lastScanned (log.dir config)))) with
  | error e =>
      rw [walked] at read
      cases read
  | ok parts =>
      obtain ⟨entries, here⟩ := mapM_item walked chunk.1 (by
        rw [List.mem_range'_1]
        omega)
      have long : frameSize config ≤
          (frameFile config (records chunk.2)).length := frameFile_long _
      have limit : ∀ frame, frameLimit
          (readState (frameSize config) none (log.dir config)) frame chunk.1
          (frameFile config (records chunk.2)) =
            (frameFile config (records chunk.2)).length := by
        intro frame
        simp [frameLimit, readState, WalIndexHeader.new]
      simp only [readFrameAt, found, limit, readFrame,
        if_neg (Nat.not_lt.mpr long), if_neg (Nat.lt_irrefl _),
        List.take_length] at here
      exact ⟨entries, here⟩

/-- The frame files and then the staging buffer decode to `accepted`. -/
def KeepsAccepted (config : WalConfig) (m : IndexedWal)
    (accepted : List WALEntry) : Prop :=
  ∃ active written staged, m.active = some active ∧
    decodeFrameFiles config m.disk = .ok written ∧
    decodeFrames active.segment.staging = .ok staged ∧
    written ++ staged = accepted

theorem Accepted.keeps
    {state : Tracked} {durable accepted : List WALEntry}
    (held : Accepted config durable state accepted)
    (recordable : ∀ entry ∈ accepted, entry.Recordable) :
    KeepsAccepted config state.wal accepted := by
  obtain ⟨active, older, last, pending, placed, -, holding, rfl, -⟩ := held
  refine ⟨active, written older last, pending, placed.opened, ?_, ?_, rfl⟩
  · apply decodeFrameFiles_placed placed
    intro entry member
    exact recordable entry (List.mem_append_left _ member)
  · have readable : ∀ entry ∈ pending, entry.Recordable :=
      fun entry member => recordable entry (List.mem_append_right _ member)
    have decoded := decodeFrames_records readable 0
    rw [holding.staging]
    simpa using decoded

theorem Accepted.notJson
    {state : Tracked} {durable accepted : List WALEntry}
    (held : Accepted config durable state accepted)
    (fits : ∀ entry ∈ accepted, entry.encode.length < 2 ^ 32)
    (keeps : KeepsAccepted config state.wal accepted) :
    ∀ entry ∈ accepted, entry.holdsJson = false := by
  obtain ⟨active, older, last, pending, placed, -, holding, rfl, -⟩ := held
  obtain ⟨active', entries, staged, opened, decoded, buffer, -⟩ := keeps
  rw [placed.opened, Option.some.injEq] at opened
  subst opened
  intro entry member
  rcases List.mem_append.mp member with front | back
  · obtain ⟨log, logMember, inside⟩ := List.mem_flatMap.mp front
    obtain ⟨chunk, chunkMember, here⟩ := List.mem_flatMap.mp inside
    have sorted : sortDirs state.wal.disk.dirs = state.wal.disk.dirs := by
      rw [placed.dirs]
      exact sortDirs_eq_self (ascendingDirs_map placed.ascending)
    rw [decodeFrameFiles, sorted] at decoded
    cases walked : (state.wal.disk.dirs.mapM fun dir =>
        readCommittedEntries (frameSize config) dir
          (readState (frameSize config) none dir)) with
    | error e =>
        rw [walked] at decoded
        cases decoded
    | ok parts =>
        obtain ⟨part, read⟩ := mapM_item walked (log.dir config) (by
          rw [placed.dirs]
          exact List.mem_map_of_mem logMember)
        obtain ⟨result, frame⟩ := readCommittedEntries_decodes
          (placed.numbered log logMember)
          (placed.numberedFrom log logMember) read chunk chunkMember
        apply decodeFrames_notJson ?_ frame entry here
        intro other otherMember
        apply fits other
        exact List.mem_append_left _ (List.mem_flatMap.mpr ⟨log, logMember,
          List.mem_flatMap.mpr ⟨chunk, chunkMember, otherMember⟩⟩)
  · rw [holding.staging] at buffer
    have decoded : decodeFrames
        (records pending ++ List.replicate 0 0) = .ok staged := by
      simpa using buffer
    exact decodeFrames_notJson
      (fun other inside => fits other (List.mem_append_right _ inside))
      decoded entry back

end

/-! ## Runs -/

/-- A log directory that does not exist yet. -/
def noDisk : IndexedDisk := ⟨none, false, []⟩

/-- The first segment of an empty directory. -/
theorem initializeWal_noDisk (config : WalConfig) (start : UInt64) :
    ∃ m, initializeWal config (new noDisk) start = .ok m ∧
      Open config m ∧ Accepted config [] ⟨m, [m.disk.index]⟩ [] := by
  have empty : (new noDisk).disk.dirs =
      ([] : List SegmentLog).map (SegmentLog.dir config) := rfl
  obtain ⟨active, placed, holding⟩ := placed_startSegment empty
    List.Pairwise.nil (by simp) (by simp) (by simp) start
  have found : mark (openIndex noDisk 0 (frameSize config)).2 =
      watermark [] := rfl
  have marked := watermarked_startSegment (m := new noDisk) found start
    placed.opened
  exact ⟨_, rfl, (startSegment_fresh _ start).isOpen, active, [], _, [],
    placed, marked, holding, rfl, List.nil_prefix⟩

/-- Every sequence of calls succeeds and what is staged has a frame to go to.
When the encodings fit their length fields, the frames and the staging buffer
decode to exactly the accepted entries, in order, if and only if no entry
holds a JSON document. -/
theorem indexed_wal_keeps_accepted
    (config : WalConfig) (start : UInt64) (calls : List IndexedCall) :
    ∃ opened m active,
      initializeWal config (new noDisk) start = .ok opened ∧
      runCalls config opened calls = .ok m ∧
      m.active = some active ∧
      (active.segment.staging ≠ [] →
        hasFrameCapacity config active.segment = true) ∧
      (∃ active', flushStaging config active = (active', true)) ∧
      (∀ now, ∃ m', rotateSegment config m now = .ok m') ∧
      (∀ next : IndexedCall, ∃ m', call config m next = .ok m') ∧
      ((∀ entry ∈ calls.flatMap IndexedCall.entries,
          entry.encode.length < 2 ^ 32) →
        (KeepsAccepted config m (calls.flatMap IndexedCall.entries) ↔
          ∀ entry ∈ calls.flatMap IndexedCall.entries,
            entry.holdsJson = false)) := by
  obtain ⟨opened, opens, isOpen, nothing⟩ :=
    initializeWal_noDisk config start
  obtain ⟨m, versions, ran, steps, isOpen'⟩ :=
    runCalls_steps isOpen [opened.disk.index] calls
  obtain ⟨active, activeEq, between⟩ := isOpen'
  have backed := between.backed
  refine ⟨opened, m, active, opens, ran, activeEq, backed, ?_, ?_, ?_, ?_⟩
  · obtain ⟨active', -, flushed, -⟩ := flushStaging_steps m versions backed
    exact ⟨active', flushed⟩
  · intro now
    obtain ⟨m', -, rotated, -⟩ :=
      rotateSegment_steps ⟨active, activeEq, between⟩ versions now
    exact ⟨m', rotated⟩
  · intro next
    obtain ⟨m', -, called, -⟩ :=
      call_steps ⟨active, activeEq, between⟩ versions next
    exact ⟨m', called⟩
  · intro fits
    have held := steps.accepted nothing
    rw [List.nil_append] at held
    constructor
    · exact held.notJson fits
    · intro notJson
      apply held.keeps
      intro entry member
      exact ⟨fits entry member, notJson entry member⟩

/-- A put of the JSON document `null` is accepted, and its frame file cannot
be decoded. -/
theorem json_entry_is_not_decoded :
    ∃ opened m,
      initializeWal WalHandle.smallConfig (new noDisk) 1 = .ok opened ∧
      runCalls WalHandle.smallConfig opened
        [.writeEntry (.put "k" (.json .null) 2) 2] = .ok m ∧
      ¬ KeepsAccepted WalHandle.smallConfig m
        [.put "k" (.json .null) 2] := by
  obtain ⟨opened, opens, isOpen, nothing⟩ :=
    initializeWal_noDisk WalHandle.smallConfig 1
  obtain ⟨m, versions, ran, steps, -⟩ := runCalls_steps isOpen
    [opened.disk.index] [.writeEntry (.put "k" (.json .null) 2) 2]
  have held := steps.accepted nothing
  refine ⟨opened, m, opens, ran, ?_⟩
  intro keeps
  have fits : ∀ entry ∈ [WALEntry.put "k" (.json .null) 2],
      entry.encode.length < 2 ^ 32 := by
    intro entry member
    rw [List.mem_singleton] at member
    subst member
    decide
  have notJson := held.notJson fits keeps (.put "k" (.json .null) 2)
    (by simp [IndexedCall.entries])
  exact absurd notJson (by decide)

end IndexedWal

end F4kvsLsm
