import Mathlib.Data.List.Nodup
import F4kvsLsm.Wal.IndexedInvariant

/-!
# Writing to and opening the indexed log manager

The open segment in terms of its directory and of what is staged.  A commit
adds the staged entries to the directory, a rotation leaves what the disk adds
up to alone, and reopening goes on behind the watermark.
-/

namespace F4kvsLsm

open ByteCodec Fallible

/-! ## The index slots -/

namespace IndexSlots

/-- No slot is newer than `latest`. -/
def Bounded (slots : IndexSlots) (latest : WalIndexHeader) : Prop :=
  (∀ header, slots.even = some header →
      header.generation ≤ latest.generation) ∧
    ∀ header, slots.odd = some header →
      header.generation ≤ latest.generation

theorem bounded_readLatest
    {slots : IndexSlots} {latest : WalIndexHeader}
    (read : slots.readLatest = some latest) : slots.Bounded latest := by
  obtain ⟨even, odd⟩ := slots
  cases even with
  | none =>
      have same : odd = some latest := read
      subst same
      simp [Bounded]
  | some even =>
      cases odd with
      | none =>
          have same : some even = some latest := read
          cases same
          simp [Bounded]
      | some odd =>
          simp only [readLatest] at read
          by_cases newer : even.generation ≤ odd.generation
          · rw [if_pos newer, Option.some.injEq] at read
            subst read
            simp [Bounded, newer]
          · rw [if_neg newer, Option.some.injEq] at read
            subst read
            simp only [Bounded, Option.some.injEq, forall_eq', le_refl,
              true_and]
            omega

/-- After a commit the header just written is the one that counts. -/
theorem commit_spec
    {slots : IndexSlots} {latest : WalIndexHeader}
    (bounded : slots.Bounded latest) (header : WalIndexHeader) :
    (slots.commit latest header).2 =
        { header with generation := latest.generation + 1 } ∧
      (slots.commit latest header).1.readLatest =
        some (slots.commit latest header).2 := by
  obtain ⟨even, odd⟩ := slots
  obtain ⟨evenBound, oddBound⟩ := bounded
  by_cases parity : (latest.generation + 1) % 2 = 0
  · simp only [commit, parity, if_true, true_and]
    cases odd with
    | none => rfl
    | some odd =>
        have older := oddBound odd rfl
        simp only [readLatest]
        rw [if_neg (by omega)]
  · simp only [commit, parity, if_false, true_and]
    cases even with
    | none => rfl
    | some even =>
        have older := evenBound even rfl
        simp only [readLatest]
        rw [if_pos (by omega)]

end IndexSlots

namespace IndexedDisk

/-- The header that a reader of `wal.idx` gets. -/
def latest (disk : IndexedDisk) : Option WalIndexHeader :=
  disk.index.bind IndexSlots.readLatest

/-- What the frame files add up to. -/
def recovered (disk : IndexedDisk) : List WALEntry :=
  disk.dirs.flatMap IndexedWalSegment.dirEntries

end IndexedDisk

namespace IndexedWalSegment

variable {config : WalConfig}

/-- Segment directories in the order of their numbers. -/
def AscendingDirs (dirs : List FramesDir) : Prop :=
  dirs.Pairwise fun a b => a.segmentId < b.segmentId

/-- Frames up to `bound` count; the next one may be there, but torn. -/
def FramesBelow (bound : Nat) (dir : FramesDir) : Prop :=
  ∀ file ∈ dir.frames,
    file.1 ≤ bound ∨ file.1 = bound + 1 ∧ decodeFrames file.2 = .ok []

/-- Every frame file that holds an entry is still there, byte for byte. -/
def KeepsFrames (dirs dirs' : List FramesDir) : Prop :=
  ∀ dir ∈ dirs, ∃ dir' ∈ dirs', dir'.segmentId = dir.segmentId ∧
    ∀ file ∈ dir.frames, decodeFrames file.2 ≠ .ok [] → file ∈ dir'.frames

theorem KeepsFrames.refl (dirs : List FramesDir) : KeepsFrames dirs dirs :=
  fun dir member => ⟨dir, member, rfl, fun _ file _ => file⟩

theorem KeepsFrames.trans
    {first second third : List FramesDir}
    (early : KeepsFrames first second) (late : KeepsFrames second third) :
    KeepsFrames first third := by
  intro dir member
  obtain ⟨dir', member', sameId, kept⟩ := early dir member
  obtain ⟨dir'', member'', sameId', kept'⟩ := late dir' member'
  refine ⟨dir'', member'', sameId'.trans sameId, ?_⟩
  intro file inside holds
  exact kept' file (kept file inside holds) holds

/-- The open segment of a manager: its directory stands behind `older`, the
directories behind it have no frames, and the next frame number is free. -/
structure SegmentLayout (config : WalConfig) (active : ActiveSegment)
    (older : List FramesDir) (dir : FramesDir) (later : List FramesDir) :
    Prop where
  index : active.disk.index = some active.slots
  latest : active.slots.readLatest = some active.latest
  root : active.disk.root = true
  dirs : active.disk.dirs = older ++ dir :: later
  ascending : AscendingDirs (older ++ dir :: later)
  dirsOk : ∀ other ∈ older ++ dir :: later, DirOk config other
  unused : ∀ other ∈ later, other.frames = []
  name : dir.segmentId = active.segment.segmentId
  latestName : active.latest.segmentId = active.segment.segmentId
  indexOk : IndexOk active.latest dir
  positive : 1 ≤ active.segment.stagingFrame
  next : ∀ file ∈ dir.frames, file.1 < active.segment.stagingFrame ∨
    file.1 = active.segment.stagingFrame ∧ decodeFrames file.2 = .ok []
  link : active.segment.stagingFrame ≤ active.latest.committedFrame + 1

/-- The staging buffer holds the records of `pending`. -/
structure Staged (config : WalConfig) (segment : IndexedWalSegment)
    (pending : List WALEntry) : Prop where
  staging : segment.staging = records pending
  count : segment.entriesInStaging = pending.length
  recordable : ∀ entry ∈ pending, entry.Recordable
  small : (records pending).length ≤ 2 ^ 32
  capacity : pending ≠ [] → hasFrameCapacity config segment = true

theorem ascendingDirs_replace
    {older later : List FramesDir} {dir dir' : FramesDir}
    (sameId : dir'.segmentId = dir.segmentId)
    (ascending : AscendingDirs (older ++ dir :: later)) :
    AscendingDirs (older ++ dir' :: later) := by
  unfold AscendingDirs at *
  simp only [List.pairwise_append, List.pairwise_cons, List.mem_cons,
    forall_eq_or_imp, sameId] at ascending ⊢
  exact ascending

theorem dirEntries_later
    {later : List FramesDir} (unused : ∀ other ∈ later, other.frames = []) :
    later.flatMap dirEntries = [] := by
  rw [List.flatMap_eq_nil_iff]
  intro other member
  simp [dirEntries, unused other member]

section

variable {active : ActiveSegment} {older later : List FramesDir}
variable {dir : FramesDir}

theorem SegmentLayout.recovered_eq
    (layout : SegmentLayout config active older dir later) :
    active.disk.recovered =
      older.flatMap dirEntries ++ dirEntries dir := by
  rw [IndexedDisk.recovered, layout.dirs, List.flatMap_append,
    List.flatMap_cons, dirEntries_later layout.unused, List.append_nil]

/-- The directory after a file has been put at the next frame number. -/
def replacedDir (active : ActiveSegment) (dir : FramesDir)
    (content : Bytes) : FramesDir :=
  { dir with
    frames := putFrame dir.frames active.segment.stagingFrame content }

theorem putFrameFile_dirs
    (layout : SegmentLayout config active older dir later)
    (content : Bytes) :
    (putFrameFile active.disk active.segment.segmentId
      active.segment.stagingFrame content).dirs =
      older ++ replacedDir active dir content :: later := by
  have differs : ∀ other ∈ older ++ later,
      other.segmentId ≠ active.segment.segmentId := by
    intro other member
    rw [← layout.name]
    have ascending := layout.ascending
    simp only [AscendingDirs, List.pairwise_append, List.pairwise_cons,
      List.mem_cons] at ascending
    obtain ⟨-, ⟨above, -⟩, below⟩ := ascending
    rcases List.mem_append.mp member with front | back
    · have := below other front dir (Or.inl rfl)
      omega
    · have := above other back
      omega
  have untouched : ∀ dirs : List FramesDir, dirs ⊆ older ++ later →
      dirs.map (fun other =>
        if other.segmentId = active.segment.segmentId then
          { other with
            frames := putFrame other.frames active.segment.stagingFrame
              content }
        else other) = dirs := by
    intro dirs inside
    have same := List.map_congr_left (f := fun other : FramesDir =>
        if other.segmentId = active.segment.segmentId then
          { other with
            frames := putFrame other.frames active.segment.stagingFrame
              content }
        else other) (g := id) fun other member =>
      if_neg (differs other (inside member))
    rw [same, List.map_id]
  simp only [putFrameFile, layout.dirs]
  rw [List.map_append, List.map_cons, if_pos layout.name,
    untouched older (List.subset_append_left _ _),
    untouched later (List.subset_append_right _ _)]
  rfl

/-- The frame files of the segment with the torn one, if any, taken out. -/
theorem frames_filter
    (layout : SegmentLayout config active older dir later) :
    (dir.frames.filter
        (fun file => file.1 ≠ active.segment.stagingFrame)).flatMap
      (fun file => frameEntries file.2) = dirEntries dir := by
  have torn : ∀ file ∈ dir.frames,
      file.1 = active.segment.stagingFrame → frameEntries file.2 = [] := by
    intro file member here
    rcases layout.next file member with below | ⟨-, decodes⟩
    · omega
    · simp [frameEntries, decodes]
  rw [dirEntries]
  generalize dir.frames = frames at torn
  induction frames with
  | nil => rfl
  | cons file frames inductionHypothesis =>
      have back := inductionHypothesis
        (fun other member => torn other (by simp [member]))
      rw [List.flatMap_cons, List.filter_cons]
      by_cases here : file.1 = active.segment.stagingFrame
      · have empty := torn file (by simp) here
        simp only [here, ne_eq, not_true_eq_false, decide_false,
          Bool.false_eq_true, if_false, empty, List.nil_append]
        exact back
      · simp only [here, ne_eq, not_false_eq_true, decide_true, if_true,
          List.flatMap_cons]
        exact congrArg _ back

/-- A file of the directory afterwards is the new one or an old one with a
lower number. -/
theorem mem_replacedDir
    (layout : SegmentLayout config active older dir later) {content : Bytes}
    {file : Nat × Bytes}
    (member : file ∈ (replacedDir active dir content).frames) :
    file = (active.segment.stagingFrame, content) ∨
      file ∈ dir.frames ∧ file.1 < active.segment.stagingFrame := by
  rcases List.mem_append.mp member with old | new
  · obtain ⟨inside, different⟩ := List.mem_filter.mp old
    have different : file.1 ≠ active.segment.stagingFrame := by
      simpa using different
    rcases layout.next file inside with below | ⟨here, -⟩
    · exact Or.inr ⟨inside, below⟩
    · exact absurd here different
  · exact Or.inl (List.mem_singleton.mp new)

theorem replacedDir_entries
    (layout : SegmentLayout config active older dir later)
    {content : Bytes} {entries : List WALEntry}
    (decodes : decodeFrames content = .ok entries) :
    dirEntries (replacedDir active dir content) =
      dirEntries dir ++ entries := by
  have written : frameEntries content = entries := by
    simp [frameEntries, decodes]
  rw [dirEntries, replacedDir, putFrame, List.flatMap_append,
    frames_filter layout, List.flatMap_singleton, written]

theorem dirOk_replacedDir
    (layout : SegmentLayout config active older dir later)
    {content : Bytes} {entries : List WALEntry}
    (long : frameSize config ≤ content.length)
    (decodes : decodeFrames content = .ok entries) :
    DirOk config (replacedDir active dir content) := by
  have dirOk := layout.dirsOk dir (by simp)
  refine ⟨?_, ?_, ?_, ?_⟩
  · rw [replacedDir, putFrame, List.pairwise_append]
    refine ⟨dirOk.ascending.filter _, List.pairwise_singleton _ _, ?_⟩
    intro file old new member
    rw [List.mem_singleton] at member
    subst member
    rcases mem_replacedDir layout
        (List.mem_append_left _ old :
          file ∈ (replacedDir active dir content).frames)
      with new | ⟨-, below⟩
    · have different := (List.mem_filter.mp old).2
      simp [new] at different
    · exact below
  · intro file member
    rcases mem_replacedDir layout member with rfl | ⟨old, -⟩
    · exact layout.positive
    · exact dirOk.positive file old
  · intro file member
    rcases mem_replacedDir layout member with rfl | ⟨old, -⟩
    · exact long
    · exact dirOk.long file old
  · intro file member
    rcases mem_replacedDir layout member with rfl | ⟨old, -⟩
    · simp [frameEntries, decodes]
    · exact dirOk.decodes file old

theorem dirsOk_replacedDir
    (layout : SegmentLayout config active older dir later)
    {content : Bytes} {entries : List WALEntry}
    (long : frameSize config ≤ content.length)
    (decodes : decodeFrames content = .ok entries) :
    ∀ other ∈ older ++ replacedDir active dir content :: later,
      DirOk config other := by
  intro other member
  simp only [List.mem_append, List.mem_cons] at member
  rcases member with front | rfl | back
  · exact layout.dirsOk other (by simp [front])
  · exact dirOk_replacedDir layout long decodes
  · exact layout.dirsOk other (by simp [back])

theorem keepsFrames_replacedDir
    (layout : SegmentLayout config active older dir later)
    (content : Bytes) :
    KeepsFrames (older ++ dir :: later)
      (older ++ replacedDir active dir content :: later) := by
  intro other member
  simp only [List.mem_append, List.mem_cons] at member
  rcases member with front | rfl | back
  · exact ⟨other, by simp [front], rfl, fun _ inside _ => inside⟩
  · refine ⟨replacedDir active other content, by simp, rfl, ?_⟩
    intro file inside holds
    rcases layout.next file inside with below | ⟨-, decodes⟩
    · refine List.mem_append_left _ (List.mem_filter.mpr ⟨inside, ?_⟩)
      simpa using Nat.ne_of_lt below
    · exact absurd decodes holds
  · exact ⟨other, by simp [back], rfl, fun _ inside _ => inside⟩

theorem replacedDir_name (active : ActiveSegment) (dir : FramesDir)
    (content : Bytes) :
    (replacedDir active dir content).segmentId = dir.segmentId := rfl

/-- The directory after a frame has been committed to it. -/
def committedDir (config : WalConfig) (active : ActiveSegment)
    (dir : FramesDir) (bytes : Bytes) : FramesDir :=
  replacedDir active dir (frameFile config bytes)

theorem frameFile_decodes
    {entries : List WALEntry}
    (recordable : ∀ entry ∈ entries, entry.Recordable) :
    decodeFrames (frameFile config (records entries)) = .ok entries :=
  decodeFrames_records recordable _

theorem frameFile_long (bytes : Bytes) :
    frameSize config ≤ (frameFile config bytes).length := by
  simp only [frameFile, List.length_append, List.length_replicate]
  omega

theorem committedDir_entries
    (layout : SegmentLayout config active older dir later)
    {entries : List WALEntry}
    (recordable : ∀ entry ∈ entries, entry.Recordable) :
    dirEntries (committedDir config active dir (records entries)) =
      dirEntries dir ++ entries :=
  replacedDir_entries layout (frameFile_decodes recordable)

theorem indexOk_committedDir
    (layout : SegmentLayout config active older dir later)
    {entries : List WALEntry} {state : WalIndexHeader}
    (recordable : ∀ entry ∈ entries, entry.Recordable)
    (small : (records entries).length ≤ 2 ^ 32)
    (committed : state.committedFrame = active.segment.stagingFrame)
    (offset : state.committedOffset = (records entries).length % 2 ^ 32) :
    IndexOk state (committedDir config active dir (records entries)) := by
  intro file member here positive
  rcases mem_replacedDir layout member with rfl | ⟨-, below⟩
  · have whole : state.committedOffset = (records entries).length := by
      rw [offset] at positive ⊢
      rcases Nat.lt_or_eq_of_le small with less | full
      · exact Nat.mod_eq_of_lt less
      · rw [full] at positive
        simp at positive
    have exact := decodeFrames_records recordable 0
    rw [List.replicate_zero, List.append_nil] at exact
    rw [whole, frameFile, List.take_left, exact]
    refine ⟨?_, (decodeFrames_records recordable _).symm⟩
    rw [List.length_append]
    exact Nat.le_add_right _ _
  · rw [committed] at here
    omega

theorem commitFrame_layout
    (layout : SegmentLayout config active older dir later)
    {entries : List WALEntry} (count : Nat)
    (recordable : ∀ entry ∈ entries, entry.Recordable)
    (small : (records entries).length ≤ 2 ^ 32) :
    SegmentLayout config (commitFrame config active (records entries) count)
      older (committedDir config active dir (records entries)) later := by
  obtain ⟨header, latest⟩ := IndexSlots.commit_spec
    (IndexSlots.bounded_readLatest layout.latest)
    { active.latest with
      committedFrame := active.segment.stagingFrame
      committedOffset := (records entries).length % 2 ^ 32
      entryCount := active.latest.entryCount + count }
  refine
    { index := rfl
      latest := latest
      root := layout.root
      dirs := putFrameFile_dirs layout (frameFile config (records entries))
      ascending := ascendingDirs_replace
        (replacedDir_name active dir _) layout.ascending
      dirsOk := dirsOk_replacedDir layout (frameFile_long _)
        (frameFile_decodes recordable)
      unused := layout.unused
      name := layout.name
      latestName := ?_
      indexOk := ?_
      positive := Nat.succ_pos _
      next := ?_
      link := ?_ }
  · simp only [commitFrame, header]
    exact layout.latestName
  · refine indexOk_committedDir layout recordable small ?_ ?_
    · simp only [commitFrame, header]
    · simp only [commitFrame, header]
  · intro file member
    left
    rcases mem_replacedDir layout member with rfl | ⟨-, below⟩
    · exact Nat.lt_succ_self _
    · exact Nat.lt_succ_of_lt below
  · simp only [commitFrame, header]
    exact Nat.le_refl _

end

/-! ## Appending to the open segment -/

/-- The open segment after an operation that has put `added` behind the
entries of `dir` and left `pending` in the staging buffer. -/
structure Advances (config : WalConfig) (older : List FramesDir)
    (dir : FramesDir) (later : List FramesDir) (active : ActiveSegment)
    (dir' : FramesDir) (added pending : List WALEntry) : Prop where
  layout : SegmentLayout config active older dir' later
  staged : Staged config active.segment pending
  name : dir'.segmentId = dir.segmentId
  entries : dirEntries dir' = dirEntries dir ++ added
  kept : KeepsFrames (older ++ dir :: later) (older ++ dir' :: later)

theorem staged_nil
    {segment : IndexedWalSegment} (staging : segment.staging = [])
    (count : segment.entriesInStaging = 0) : Staged config segment [] :=
  ⟨staging, count, by simp, by simp, by simp⟩

section

variable {active : ActiveSegment} {older later : List FramesDir}
variable {dir : FramesDir} {pending : List WALEntry}

theorem advances_self
    (layout : SegmentLayout config active older dir later)
    (staged : Staged config active.segment pending) :
    Advances config older dir later active dir [] pending :=
  ⟨layout, staged, rfl, (List.append_nil _).symm, KeepsFrames.refl _⟩

theorem Advances.trans
    {middle last : ActiveSegment} {dir₁ dir₂ : FramesDir}
    {added added' pending' : List WALEntry}
    (one : Advances config older dir later middle dir₁ added pending)
    (two : Advances config older dir₁ later last dir₂ added' pending') :
    Advances config older dir later last dir₂ (added ++ added') pending' := by
  refine ⟨two.layout, two.staged, two.name.trans one.name, ?_,
    one.kept.trans two.kept⟩
  rw [two.entries, one.entries, List.append_assoc]

theorem records_eq_nil_iff (entries : List WALEntry) :
    records entries = [] ↔ entries = [] := by
  cases entries with
  | nil => simp
  | cons entry entries =>
      have long : (records (entry :: entries)).length ≠ 0 := by
        simp [records]
      constructor
      · intro empty
        simp [empty] at long
      · intro empty
        simp at empty

theorem Staged.isEmpty
    {segment : IndexedWalSegment} (staged : Staged config segment pending) :
    segment.staging.isEmpty = true ↔ pending = [] := by
  rw [List.isEmpty_iff, staged.staging, records_eq_nil_iff]

/-- Whatever is staged has a frame to go to. -/
theorem flushStaging_advances
    (layout : SegmentLayout config active older dir later)
    (staged : Staged config active.segment pending) :
    ∃ active' dir', flushStaging config active = (active', true) ∧
      Advances config older dir later active' dir' pending [] := by
  by_cases empty : pending = []
  · have clear := staged.isEmpty.mpr empty
    subst empty
    exact ⟨active, dir, by rw [flushStaging, if_pos clear],
      advances_self layout staged⟩
  · have full : ¬ active.segment.staging.isEmpty = true :=
      fun clear => empty (staged.isEmpty.mp clear)
    have committed := commitFrame_layout layout
      active.segment.entriesInStaging staged.recordable staged.small
    refine ⟨clearStaging (commitFrame config active (records pending)
      active.segment.entriesInStaging),
      committedDir config active dir (records pending), ?_, ?_⟩
    · rw [flushStaging, if_neg full, if_pos (staged.capacity empty),
        staged.staging]
    · refine ⟨?_, staged_nil rfl rfl, rfl,
        committedDir_entries layout staged.recordable,
        keepsFrames_replacedDir layout _⟩
      exact ⟨committed.index, committed.latest, committed.root,
        committed.dirs, committed.ascending, committed.dirsOk,
        committed.unused, committed.name, committed.latestName,
        committed.indexOk, committed.positive, committed.next,
        committed.link⟩

/-- A flush that finds nothing staged changes nothing. -/
theorem flushStaging_nil
    (staged : Staged config active.segment []) :
    flushStaging config active = (active, true) := by
  rw [flushStaging, if_pos (staged.isEmpty.mpr rfl)]

theorem makeRoom_nil
    (staged : Staged config active.segment []) (encoded : Bytes) :
    makeRoom config active encoded = (active, true) := by
  rw [makeRoom, if_neg (by simp [staged.isEmpty.mpr rfl])]

theorem stage_advances
    (layout : SegmentLayout config active older dir later)
    (staged : Staged config active.segment pending)
    {entry : WALEntry} (recordable : entry.Recordable)
    (small : (records (pending ++ [entry])).length ≤ 2 ^ 32)
    (capacity : hasFrameCapacity config active.segment = true) :
    Advances config older dir later (stage active (encodeEntry entry)) dir []
      (pending ++ [entry]) := by
  refine ⟨?_, ?_, rfl, (List.append_nil _).symm, KeepsFrames.refl _⟩
  · exact ⟨layout.index, layout.latest, layout.root, layout.dirs,
      layout.ascending, layout.dirsOk, layout.unused, layout.name,
      layout.latestName, layout.indexOk, layout.positive, layout.next,
      layout.link⟩
  · refine ⟨?_, ?_, ?_, small, fun _ => capacity⟩
    · simp only [stage, encodeEntry, staged.staging, records_append,
        records_singleton]
    · simp [stage, staged.count]
    · intro other member
      rcases List.mem_append.mp member with old | new
      · exact staged.recordable other old
      · rw [List.mem_singleton] at new
        exact new ▸ recordable

/-- An oversized entry gets a frame of its own. -/
theorem commitEntry_advances
    (layout : SegmentLayout config active older dir later)
    (staged : Staged config active.segment [])
    {entry : WALEntry} (recordable : entry.Recordable)
    (small : (encodeEntry entry).length ≤ 2 ^ 32) :
    Advances config older dir later
      (commitFrame config active (encodeEntry entry) 1)
      (committedDir config active dir (encodeEntry entry)) [entry] [] := by
  have single : ∀ other ∈ [entry], other.Recordable := by
    simpa using recordable
  have sameBytes : encodeEntry entry = records [entry] :=
    (records_singleton entry).symm
  rw [sameBytes] at small ⊢
  exact ⟨commitFrame_layout layout 1 single small,
    staged_nil staged.staging staged.count, rfl,
    committedDir_entries layout single, keepsFrames_replacedDir layout _⟩

/-- The sizes and modes for which a single entry reaches a frame at once. -/
structure Committable (config : WalConfig) (entry : WALEntry) : Prop where
  recordable : entry.Recordable
  small : (encodeEntry entry).length ≤ 2 ^ 32
  reaches : config.syncMode = .fsync ∨
    frameSize config ≤ (encodeEntry entry).length

/-- With nothing staged, such an entry is committed if a frame is left. -/
theorem appendEntry_advances
    (layout : SegmentLayout config active older dir later)
    (staged : Staged config active.segment [])
    {entry : WALEntry} (committable : Committable config entry)
    (capacity : hasFrameCapacity config active.segment = true) :
    ∃ active' dir', appendEntry config active entry = (active', true) ∧
      Advances config older dir later active' dir' [entry] [] := by
  have clear := staged.isEmpty.mpr rfl
  by_cases oversized : (encodeEntry entry).length > frameSize config
  · refine ⟨_, _, ?_, commitEntry_advances layout staged
      committable.recordable committable.small⟩
    simp only [appendEntry, if_pos oversized, flushStaging_nil staged,
      if_pos capacity]
  · have single : (records ([] ++ [entry])).length ≤ 2 ^ 32 := by
      rw [List.nil_append, records_singleton]
      exact committable.small
    have staging := stage_advances layout staged committable.recordable
      single capacity
    obtain ⟨active', dir', flushed, advanced⟩ :=
      flushStaging_advances staging.layout staging.staged
    refine ⟨active', dir', ?_, staging.trans advanced⟩
    simp only [appendEntry, if_neg oversized, makeRoom_nil staged, capacity,
      clear, not_true_eq_false, and_false, if_false, true_and]
    by_cases exactFit : (encodeEntry entry).length = frameSize config
    · rw [if_pos exactFit, flushed]
    · have fsync : config.syncMode = .fsync := by
        rcases committable.reaches with fsync | long
        · exact fsync
        · omega
      rw [if_neg exactFit, if_pos (Or.inl fsync), flushed]

theorem appendEntry_full
    (staged : Staged config active.segment []) (entry : WALEntry)
    (full : ¬ hasFrameCapacity config active.segment = true) :
    appendEntry config active entry = (active, false) := by
  have clear := staged.isEmpty.mpr rfl
  by_cases oversized : (encodeEntry entry).length > frameSize config
  · simp only [appendEntry, if_pos oversized, flushStaging_nil staged,
      if_neg full]
  · simp [appendEntry, oversized, makeRoom_nil staged, clear, full]

/-! ### Batches -/

/-- Room for the next entry is made by flushing, never by dropping. -/
theorem makeRoom_advances
    (layout : SegmentLayout config active older dir later)
    (staged : Staged config active.segment pending) {encoded : Bytes}
    (fits : encoded.length ≤ frameSize config) :
    ∃ active' dir' added pending',
      makeRoom config active encoded = (active', true) ∧
      Advances config older dir later active' dir' added pending' ∧
      added ++ pending' = pending ∧
      (records pending').length + encoded.length ≤ frameSize config := by
  by_cases tight : ¬ active.segment.staging.isEmpty = true ∧
      active.segment.staging.length + encoded.length > frameSize config
  · obtain ⟨active', dir', flushed, advanced⟩ :=
      flushStaging_advances layout staged
    refine ⟨active', dir', pending, [], ?_, advanced, by simp, ?_⟩
    · rw [makeRoom, if_pos tight, flushed]
    · simpa using fits
  · refine ⟨active, dir, [], pending, ?_, advances_self layout staged, rfl,
      ?_⟩
    · rw [makeRoom, if_neg tight]
    · by_cases empty : pending = []
      · subst empty
        simpa using fits
      · have full : ¬ active.segment.staging.isEmpty = true :=
          fun clear => empty (staged.isEmpty.mp clear)
        rw [← staged.staging]
        by_contra exceeds
        exact tight ⟨full, Nat.lt_of_not_le exceeds⟩

theorem encodeEntry_length (entry : WALEntry) :
    (encodeEntry entry).length = (records [entry]).length := by
  rw [records_singleton, encodeEntry]

/-- The loop of a batch stages or commits the entries it counts, in order. -/
theorem appendEntriesLoop_advances
    {entries : List WALEntry}
    (frameFits : frameSize config ≤ 2 ^ 32 ∨
      (records (pending ++ entries)).length ≤ 2 ^ 32)
    (layout : SegmentLayout config active older dir later)
    (staged : Staged config active.segment pending)
    (recordable : ∀ entry ∈ entries, entry.Recordable)
    (small : ∀ entry ∈ entries, (encodeEntry entry).length ≤ 2 ^ 32) :
    ∃ active' dir' added pending' written all,
      appendEntriesLoop config active entries = (active', written, all) ∧
      Advances config older dir later active' dir' added pending' ∧
      added ++ pending' = pending ++ entries.take written ∧
      (all = false → pending' = []) ∧
      (pending = [] → hasFrameCapacity config active.segment = true →
        entries ≠ [] → written ≠ 0) := by
  induction entries generalizing active dir pending with
  | nil =>
      exact ⟨active, dir, [], pending, 0, true, rfl,
        advances_self layout staged, by simp, by simp, by simp⟩
  | cons entry entries inductionHypothesis =>
      have entryRecordable := recordable entry (by simp)
      have entrySmall := small entry (by simp)
      have restRecordable : ∀ other ∈ entries, other.Recordable :=
        fun other member => recordable other (by simp [member])
      have restSmall : ∀ other ∈ entries,
          (encodeEntry other).length ≤ 2 ^ 32 :=
        fun other member => small other (by simp [member])
      by_cases oversized : (encodeEntry entry).length > frameSize config
      · obtain ⟨active₁, dir₁, flushed, first⟩ :=
          flushStaging_advances layout staged
        by_cases capacity : hasFrameCapacity config active₁.segment = true
        · have second := commitEntry_advances first.layout first.staged
            entryRecordable entrySmall
          have restFits : frameSize config ≤ 2 ^ 32 ∨
              (records ([] ++ entries)).length ≤ 2 ^ 32 := by
            refine frameFits.imp_right fun whole => ?_
            rw [records_append, records_cons] at whole
            simp only [List.length_append] at whole
            rw [List.nil_append]
            omega
          obtain ⟨active₂, dir₂, added, pending', written, all, looped,
              third, taken, partly, -⟩ :=
            inductionHypothesis restFits second.layout second.staged
              restRecordable restSmall
          refine ⟨active₂, dir₂, _, pending', written + 1, all, ?_,
            (first.trans second).trans third, ?_, partly,
            fun _ _ _ => Nat.succ_ne_zero _⟩
          · simp only [appendEntriesLoop, if_pos oversized, flushed,
              if_pos capacity, looped]
          · simp only [List.append_assoc, taken, List.take_succ_cons]
            rfl
        · refine ⟨active₁, dir₁, pending, [], 0, false, ?_, first, by simp,
            by simp, ?_⟩
          · simp only [appendEntriesLoop, if_pos oversized, flushed,
              if_neg capacity]
          · intro nothing available _
            subst nothing
            have same := (flushStaging_nil staged).symm.trans flushed
            rw [Prod.mk.injEq] at same
            exact absurd (same.1 ▸ available) capacity
      · obtain ⟨active₁, dir₁, added₁, pending₁, room, first, split, fits⟩ :=
          makeRoom_advances layout staged (Nat.le_of_not_lt oversized)
        by_cases full : active₁.segment.staging.isEmpty = true ∧
            ¬ hasFrameCapacity config active₁.segment = true
        · have nothing : pending₁ = [] :=
            first.staged.isEmpty.mp full.1
          refine ⟨active₁, dir₁, added₁, pending₁, 0, false, ?_, first,
            by simpa using split, fun _ => nothing, ?_⟩
          · simp only [appendEntriesLoop, if_neg oversized, room,
              if_pos full]
          · intro none available _
            subst none
            have same := (makeRoom_nil staged _).symm.trans room
            rw [Prod.mk.injEq] at same
            exact absurd (same.1 ▸ available) full.2
        · have capacity : hasFrameCapacity config active₁.segment = true := by
            by_cases empty : pending₁ = []
            · have clear := first.staged.isEmpty.mpr empty
              simpa [clear] using full
            · exact first.staged.capacity empty
          have restFits : frameSize config ≤ 2 ^ 32 ∨
              (records ((pending₁ ++ [entry]) ++ entries)).length ≤
                2 ^ 32 := by
            refine frameFits.imp_right fun whole => ?_
            rw [← split, records_append, records_append, records_cons]
              at whole
            simp only [records_append, records_singleton,
              List.length_append] at whole ⊢
            omega
          have together :
              (records (pending₁ ++ [entry])).length ≤ 2 ^ 32 := by
            rw [encodeEntry_length] at fits
            rcases restFits with frameBound | whole
            · rw [records_append, List.length_append]
              omega
            · rw [records_append, List.length_append] at whole
              omega
          have second := stage_advances first.layout first.staged
            entryRecordable together capacity
          obtain ⟨active₂, dir₂, added, pending', written, all, looped,
              third, taken, partly, -⟩ :=
            inductionHypothesis restFits second.layout second.staged
              restRecordable restSmall
          refine ⟨active₂, dir₂, _, pending', written + 1, all, ?_,
            (first.trans second).trans third, ?_, partly,
            fun _ _ _ => Nat.succ_ne_zero _⟩
          · simp only [appendEntriesLoop, if_neg oversized, room,
              if_neg full, looped]
          · simp only [List.append_assoc, List.nil_append, taken,
              List.take_succ_cons, ← split]
            rfl

/-- A batch commits the entries it counts, and at least the first one when a
frame is left. -/
theorem appendEntriesBatch_advances
    {entries : List WALEntry}
    (frameFits : frameSize config ≤ 2 ^ 32 ∨
      (records entries).length ≤ 2 ^ 32)
    (layout : SegmentLayout config active older dir later)
    (staged : Staged config active.segment [])
    (recordable : ∀ entry ∈ entries, entry.Recordable)
    (small : ∀ entry ∈ entries, (encodeEntry entry).length ≤ 2 ^ 32) :
    ∃ active' dir' written,
      appendEntriesBatch config active entries = (active', written) ∧
      Advances config older dir later active' dir' (entries.take written)
        [] ∧
      (hasFrameCapacity config active.segment = true → entries ≠ [] →
        written ≠ 0) := by
  obtain ⟨active₁, dir₁, added, pending', written, all, looped, first, taken,
      partly, progress⟩ :=
    appendEntriesLoop_advances frameFits layout staged recordable small
  rw [List.nil_append] at taken
  cases all with
  | false =>
      have nothing := partly rfl
      subst nothing
      rw [List.append_nil] at taken
      subst taken
      exact ⟨active₁, dir₁, written,
        by simp only [appendEntriesBatch, looped], first, progress rfl⟩
  | true =>
      obtain ⟨active₂, dir₂, flushed, second⟩ :=
        flushStaging_advances first.layout first.staged
      refine ⟨active₂, dir₂, written, ?_, ?_, progress rfl⟩
      · simp only [appendEntriesBatch, looped, flushed]
      · rw [← taken]
        exact first.trans second

end

end IndexedWalSegment

/-! ## The manager -/

namespace IndexedWal

open IndexedWalSegment

variable {config : WalConfig}

/-- A disk that sessions have left behind.  The watermark names a segment
whose frames it covers, but for one torn frame behind it. -/
structure OnDisk (config : WalConfig) (disk : IndexedDisk) : Prop where
  ascending : AscendingDirs disk.dirs
  dirsOk : ∀ dir ∈ disk.dirs, DirOk config dir
  root : disk.root = false → disk.dirs = []
  watermark : ∀ state, disk.latest = some state →
    ∃ older dir later, disk.dirs = older ++ dir :: later ∧
      dir.segmentId = state.segmentId ∧ IndexOk state dir ∧
      FramesBelow state.committedFrame dir ∧
      ∀ other ∈ later, other.frames = []

/-- An open manager with nothing staged. -/
structure Layout (config : WalConfig) (m : IndexedWal)
    (active : ActiveSegment) (older : List FramesDir) (dir : FramesDir)
    (later : List FramesDir) : Prop where
  opened : m.active = some active
  segment : SegmentLayout config active older dir later
  staged : Staged config active.segment []
  above : ∀ other ∈ m.disk.dirs, other.segmentId < m.counter
  tracked : ∀ id ∈ m.segments,
    id ≠ active.segment.segmentId ∧ id < m.counter

def Ready (config : WalConfig) (m : IndexedWal) : Prop :=
  ∃ active older dir later, Layout config m active older dir later

/-- `m'` is open, holds what `m` held followed by `added`, and has kept every
frame file that holds an entry. -/
structure Grows (config : WalConfig) (m m' : IndexedWal)
    (added : List WALEntry) : Prop where
  ready : Ready config m'
  recovered : m'.disk.recovered = m.disk.recovered ++ added
  kept : KeepsFrames m.disk.dirs m'.disk.dirs

theorem Grows.trans
    {first second third : IndexedWal} {early late : List WALEntry}
    (one : Grows config first second early)
    (two : Grows config second third late) :
    Grows config first third (early ++ late) := by
  refine ⟨two.ready, ?_, one.kept.trans two.kept⟩
  rw [two.recovered, one.recovered, List.append_assoc]

theorem grows_self {m : IndexedWal} (ready : Ready config m) :
    Grows config m m [] :=
  ⟨ready, (List.append_nil _).symm, KeepsFrames.refl _⟩

@[simp]
theorem setActive_active (m : IndexedWal) (active : ActiveSegment) :
    (m.setActive active).active = some active := rfl

theorem active_disk
    {m : IndexedWal} {active : ActiveSegment}
    (opened : m.active = some active) : active.disk = m.disk := by
  simp only [IndexedWal.active, Option.map_eq_some_iff] at opened
  obtain ⟨handle, -, rfl⟩ := opened
  rfl

theorem setActive_self
    {m : IndexedWal} {active : ActiveSegment}
    (opened : m.active = some active) : m.setActive active = m := by
  obtain ⟨disk, handle, segments, counter⟩ := m
  simp only [IndexedWal.active, Option.map_eq_some_iff] at opened
  obtain ⟨handle, rfl, rfl⟩ := opened
  rfl

section

variable {m : IndexedWal} {active : ActiveSegment}
variable {older later : List FramesDir} {dir : FramesDir}

theorem Layout.dirs (layout : Layout config m active older dir later) :
    m.disk.dirs = older ++ dir :: later := by
  rw [← active_disk layout.opened, layout.segment.dirs]

theorem Layout.onDisk (layout : Layout config m active older dir later) :
    OnDisk config m.disk := by
  have sameDisk := active_disk layout.opened
  have segment := layout.segment
  refine ⟨?_, ?_, ?_, ?_⟩
  · rw [layout.dirs]
    exact segment.ascending
  · rw [layout.dirs]
    exact segment.dirsOk
  · intro absent
    rw [← sameDisk, segment.root] at absent
    exact absurd absent (by decide)
  · intro state latest
    have read : m.disk.latest = some active.latest := by
      rw [← sameDisk, IndexedDisk.latest, segment.index, Option.bind_some,
        segment.latest]
    rw [read, Option.some.injEq] at latest
    subst latest
    refine ⟨older, dir, later, layout.dirs,
      segment.name.trans segment.latestName.symm, segment.indexOk, ?_,
      segment.unused⟩
    intro file member
    have link := segment.link
    rcases segment.next file member with below | ⟨here, torn⟩
    · left
      omega
    · by_cases covered : file.1 ≤ active.latest.committedFrame
      · exact Or.inl covered
      · exact Or.inr ⟨by omega, torn⟩

/-- The manager after an operation on its open segment. -/
theorem Layout.setActive
    {active' : ActiveSegment} {dir' : FramesDir} {added : List WALEntry}
    (layout : Layout config m active older dir later)
    (advances : Advances config older dir later active' dir' added []) :
    Layout config (m.setActive active') active' older dir' later := by
  have sameId : active'.segment.segmentId = active.segment.segmentId := by
    rw [← advances.layout.name, advances.name, layout.segment.name]
  refine ⟨rfl, advances.layout, advances.staged, ?_, ?_⟩
  · intro other member
    change other ∈ active'.disk.dirs at member
    rw [advances.layout.dirs] at member
    have above := layout.above
    rw [layout.dirs] at above
    simp only [List.mem_append, List.mem_cons] at member
    change other.segmentId < m.counter
    rcases member with front | rfl | back
    · exact above other (by simp [front])
    · rw [advances.name]
      exact above dir (by simp)
    · exact above other (by simp [back])
  · intro id member
    rw [sameId]
    exact layout.tracked id member

theorem Layout.setActive_grows
    {active' : ActiveSegment} {dir' : FramesDir} {added : List WALEntry}
    (layout : Layout config m active older dir later)
    (advances : Advances config older dir later active' dir' added []) :
    Grows config m (m.setActive active') added := by
  refine ⟨⟨_, _, _, _, layout.setActive advances⟩, ?_, ?_⟩
  · change active'.disk.recovered = m.disk.recovered ++ added
    rw [← active_disk layout.opened, advances.layout.recovered_eq,
      layout.segment.recovered_eq, advances.entries, List.append_assoc]
  · change KeepsFrames m.disk.dirs active'.disk.dirs
    rw [layout.dirs, advances.layout.dirs]
    exact advances.kept

end

/-! ### Rotation -/

theorem openIndex_bounded (disk : IndexedDisk) (segmentId frameSize : Nat) :
    (openIndex disk segmentId frameSize).1.Bounded
      (openIndex disk segmentId frameSize).2 := by
  simp only [openIndex]
  cases read : (disk.index.getD IndexSlots.empty).readLatest with
  | some latest => exact IndexSlots.bounded_readLatest read
  | none =>
      generalize disk.index.getD IndexSlots.empty = slots at read
      obtain ⟨even, odd⟩ := slots
      cases even with
      | none =>
          have absent : odd = none := read
          subst absent
          simp [IndexSlots.Bounded]
      | some even =>
          cases odd with
          | none => simp [IndexSlots.readLatest] at read
          | some odd =>
              simp only [IndexSlots.readLatest] at read
              split at read <;> simp at read

theorem ascendingDirs_append_singleton
    {dirs : List FramesDir} {dir : FramesDir}
    (ascending : AscendingDirs dirs)
    (above : ∀ other ∈ dirs, other.segmentId < dir.segmentId) :
    AscendingDirs (dirs ++ [dir]) := by
  unfold AscendingDirs at *
  simp only [List.pairwise_append, List.pairwise_singleton, true_and,
    List.mem_singleton, forall_eq]
  exact ⟨ascending, above⟩

theorem startSegment_dirs
    {m : IndexedWal}
    (above : ∀ dir ∈ m.disk.dirs, dir.segmentId < m.counter)
    (now : UInt64) :
    (startSegment config m now).disk.dirs =
      m.disk.dirs ++ [⟨m.counter, now, []⟩] := by
  have absent : m.disk.dirs.any (fun dir => dir.segmentId = m.counter) =
      false := by
    rw [List.any_eq_false]
    intro dir member
    simpa using Nat.ne_of_lt (above dir member)
  simp [startSegment, absent]

/-- A new segment behind the directories on disk. -/
theorem startSegment_layout
    {m : IndexedWal} (ascending : AscendingDirs m.disk.dirs)
    (dirsOk : ∀ dir ∈ m.disk.dirs, DirOk config dir)
    (above : ∀ dir ∈ m.disk.dirs, dir.segmentId < m.counter)
    (tracked : ∀ id ∈ m.segments, id < m.counter) (now : UInt64) :
    ∃ active, Layout config (startSegment config m now) active m.disk.dirs
      ⟨m.counter, now, []⟩ [] := by
  have absent : m.disk.dirs.any (fun dir => dir.segmentId = m.counter) =
      false := by
    rw [List.any_eq_false]
    intro dir member
    simpa using Nat.ne_of_lt (above dir member)
  have header := IndexSlots.commit_spec
    (openIndex_bounded m.disk m.counter (frameSize config))
    { (openIndex m.disk m.counter (frameSize config)).2 with
      segmentId := m.counter, frameSize := frameSize config }
  have behind : AscendingDirs (m.disk.dirs ++ [⟨m.counter, now, []⟩]) :=
    ascendingDirs_append_singleton ascending above
  have empty : DirOk config ⟨m.counter, now, []⟩ :=
    ⟨List.Pairwise.nil, by simp, by simp, by simp⟩
  refine ⟨_, rfl, ?_, staged_nil rfl rfl, ?_, fun id member =>
    ⟨Nat.ne_of_lt (tracked id member),
      Nat.lt_succ_of_lt (tracked id member)⟩⟩
  · refine
      { index := rfl
        latest := header.2
        root := rfl
        dirs := ?_
        ascending := behind
        dirsOk := ?_
        unused := by simp
        name := rfl
        latestName := ?_
        indexOk := by simp [IndexOk]
        positive := Nat.le_refl 1
        next := by simp
        link := Nat.succ_le_succ (Nat.zero_le _) }
    · simp [startSegment, absent]
    · intro other member
      rcases List.mem_append.mp member with old | new
      · exact dirsOk other old
      · rw [List.mem_singleton] at new
        exact new ▸ empty
    · exact congrArg WalIndexHeader.segmentId header.1
  · intro other member
    simp only [startSegment, absent, Bool.false_eq_true, if_false,
      List.mem_append, List.mem_singleton] at member
    change other.segmentId < m.counter + 1
    rcases member with old | rfl
    · exact Nat.lt_succ_of_lt (above other old)
    · exact Nat.lt_succ_self _

theorem keepsFrames_append_right (dirs added : List FramesDir) :
    KeepsFrames dirs (dirs ++ added) :=
  fun dir member =>
    ⟨dir, List.mem_append_left _ member, rfl, fun _ inside _ => inside⟩

/-- An open manager whose segment has a free frame. -/
def Roomy (config : WalConfig) (m : IndexedWal) : Prop :=
  ∃ active older dir later, Layout config m active older dir later ∧
    hasFrameCapacity config active.segment = true

theorem Roomy.ready {m : IndexedWal} (roomy : Roomy config m) :
    Ready config m := by
  obtain ⟨active, older, dir, later, layout, -⟩ := roomy
  exact ⟨active, older, dir, later, layout⟩

theorem startSegment_roomy
    {m : IndexedWal} (ascending : AscendingDirs m.disk.dirs)
    (dirsOk : ∀ dir ∈ m.disk.dirs, DirOk config dir)
    (above : ∀ dir ∈ m.disk.dirs, dir.segmentId < m.counter)
    (tracked : ∀ id ∈ m.segments, id < m.counter) (now : UInt64) :
    Roomy config (startSegment config m now) := by
  obtain ⟨active, layout⟩ :=
    startSegment_layout ascending dirsOk above tracked now
  have opened := layout.opened
  refine ⟨active, _, _, _, layout, ?_⟩
  have first : active.segment.stagingFrame = 1 := by
    simp only [IndexedWal.active, startSegment, Option.map_some,
      Option.some.injEq] at opened
    rw [← opened]
  simp only [hasFrameCapacity, first, dataFrameCount, decide_eq_true_eq]
  omega

theorem startSegment_recovered
    {m : IndexedWal}
    (above : ∀ dir ∈ m.disk.dirs, dir.segmentId < m.counter)
    (now : UInt64) :
    (startSegment config m now).disk.recovered = m.disk.recovered := by
  simp [IndexedDisk.recovered, startSegment_dirs above, dirEntries]

/-- Rotation with nothing staged starts a segment that has all its frames. -/
theorem rotateSegment_grows
    {m : IndexedWal} (ready : Ready config m) (now : UInt64) :
    ∃ m', rotateSegment config m now = .ok m' ∧ Roomy config m' ∧
      Grows config m m' [] := by
  obtain ⟨active, older, dir, later, layout⟩ := ready
  have onDisk := layout.onDisk
  have flushed := flushStaging_nil layout.staged
  have below : active.segment.segmentId < m.counter := by
    rw [← layout.segment.name]
    exact layout.above dir (by simp [layout.dirs])
  have tracked :
      ∀ id ∈ (sealSegment m active.segment.segmentId).segments,
        id < m.counter := by
    intro id member
    rcases List.mem_append.mp member with old | new
    · exact (layout.tracked id (List.mem_of_mem_filter old)).2
    · rw [List.mem_singleton] at new
      exact new ▸ below
  have sameDisk : (sealSegment m active.segment.segmentId).disk = m.disk :=
    rfl
  have above :
      ∀ other ∈ (sealSegment m active.segment.segmentId).disk.dirs,
        other.segmentId < m.counter := layout.above
  have roomy : Roomy config
      (startSegment config (sealSegment m active.segment.segmentId) now) :=
    startSegment_roomy (m := sealSegment m active.segment.segmentId)
      onDisk.ascending onDisk.dirsOk above tracked now
  refine ⟨startSegment config (sealSegment m active.segment.segmentId) now,
    ?_, roomy, roomy.ready, ?_, ?_⟩
  · simp only [rotateSegment, layout.opened, flushed,
      setActive_self layout.opened]
  · rw [startSegment_recovered above, sameDisk, List.append_nil]
  · rw [startSegment_dirs above, sameDisk]
    exact keepsFrames_append_right _ _

/-! ### Writing -/

/-- A single entry that fits the mode is written, after a rotation if no
frame is left. -/
theorem writeEntry_grows
    {m : IndexedWal} {entry : WALEntry} (ready : Ready config m)
    (committable : Committable config entry) (now : UInt64) :
    ∃ m', writeEntry config m entry now = .ok m' ∧
      Grows config m m' [entry] := by
  have rotation := rotateSegment_grows ready now
  obtain ⟨active, older, dir, later, layout⟩ := ready
  by_cases capacity : hasFrameCapacity config active.segment = true
  · obtain ⟨active', dir', appended, advances⟩ :=
      appendEntry_advances layout.segment layout.staged committable capacity
    exact ⟨m.setActive active', by
      simp only [writeEntry, layout.opened, appended],
      layout.setActive_grows advances⟩
  · have full := appendEntry_full layout.staged entry capacity
    obtain ⟨m₁, rotated, roomy, first⟩ := rotation
    obtain ⟨active₁, older₁, dir₁, later₁, layout₁, capacity₁⟩ := roomy
    obtain ⟨active', dir', appended, advances⟩ :=
      appendEntry_advances layout₁.segment layout₁.staged committable
        capacity₁
    refine ⟨m₁.setActive active', ?_,
      first.trans (layout₁.setActive_grows advances)⟩
    simp only [writeEntry, layout.opened, full, setActive_self layout.opened,
      rotated, bind, Except.bind, layout₁.opened, appended]

/-- The sizes for which a batch is written and read back. -/
structure BatchFits (config : WalConfig) (entries : List WALEntry) : Prop where
  frame : frameSize config ≤ 2 ^ 32 ∨ (records entries).length ≤ 2 ^ 32
  recordable : ∀ entry ∈ entries, entry.Recordable
  small : ∀ entry ∈ entries, (encodeEntry entry).length ≤ 2 ^ 32

theorem BatchFits.drop
    {entries : List WALEntry} (fits : BatchFits config entries)
    (count : Nat) : BatchFits config (entries.drop count) :=
  ⟨fits.frame.imp_right fun whole => by
      rw [← List.take_append_drop count entries, records_append,
        List.length_append] at whole
      omega,
    fun entry member =>
    fits.recordable entry (List.mem_of_mem_drop member),
    fun entry member => fits.small entry (List.mem_of_mem_drop member)⟩

theorem batchPass
    {m : IndexedWal} {active : ActiveSegment} {older later : List FramesDir}
    {dir : FramesDir} {entries : List WALEntry}
    (layout : Layout config m active older dir later)
    (fits : BatchFits config entries) :
    ∃ active' written,
      appendEntriesBatch config active entries = (active', written) ∧
      Grows config m (m.setActive active') (entries.take written) ∧
      (hasFrameCapacity config active.segment = true → entries ≠ [] →
        written ≠ 0) := by
  obtain ⟨active', dir', written, appended, advances, progress⟩ :=
    appendEntriesBatch_advances fits.frame layout.segment layout.staged
      fits.recordable fits.small
  exact ⟨active', written, appended, layout.setActive_grows advances,
    progress⟩

theorem batchLoop_nil (m : IndexedWal) (emptyRotations : Nat)
    (now : UInt64) : batchLoop config m [] emptyRotations now = .ok m := by
  rw [batchLoop]
  rfl

theorem batchLoop_cons
    {m : IndexedWal} {active active' : ActiveSegment}
    {entries : List WALEntry} {written emptyRotations : Nat} {now : UInt64}
    (nonempty : entries ≠ []) (opened : m.active = some active)
    (appended : appendEntriesBatch config active entries =
      (active', written)) :
    batchLoop config m entries emptyRotations now =
      if written = 0 then
        if emptyRotations + 1 > 2 then
          .error (.internal
            "indexed wal batch made no progress after rotation")
        else
          (rotateSegment config (m.setActive active') now).bind fun m =>
            batchLoop config m entries (emptyRotations + 1) now
      else if written < entries.length then
        (rotateSegment config (m.setActive active') now).bind fun m =>
          batchLoop config m (entries.drop written) 0 now
      else .ok (m.setActive active') := by
  have full : entries.isEmpty = false := by simpa using nonempty
  rw [batchLoop]
  simp only [full, opened, appended, Bool.false_eq_true, if_false]
  rfl

/-- The batch loop from an open segment with a free frame.  The induction is
on the entries left: each pass takes at least one of them. -/
theorem batchLoop_roomy
    {m : IndexedWal} {entries : List WALEntry} (emptyRotations : Nat)
    (roomy : Roomy config m) (fits : BatchFits config entries)
    (now : UInt64) :
    ∃ m', batchLoop config m entries emptyRotations now = .ok m' ∧
      Grows config m m' entries := by
  induction bound : entries.length using Nat.strong_induction_on
    generalizing m entries emptyRotations with
  | _ bound' inductionHypothesis =>
      by_cases empty : entries = []
      · subst empty
        exact ⟨m, batchLoop_nil m emptyRotations now,
          grows_self roomy.ready⟩
      · obtain ⟨active, older, dir, later, layout, capacity⟩ := roomy
        obtain ⟨active', written, appended, first, progress⟩ :=
          batchPass layout fits
        have some := progress capacity empty
        by_cases partly : written < entries.length
        · obtain ⟨m₁, rotated, roomy₁, second⟩ :=
            rotateSegment_grows first.ready now
          obtain ⟨m₂, looped, third⟩ := inductionHypothesis
            (entries.drop written).length
            (by rw [List.length_drop]; omega) 0 roomy₁ (fits.drop written)
            rfl
          refine ⟨m₂, ?_, ?_⟩
          · rw [batchLoop_cons empty layout.opened appended, if_neg some,
              if_pos partly, rotated]
            exact looped
          · have whole := (first.trans second).trans third
            rw [List.append_nil, List.take_append_drop] at whole
            exact whole
        · refine ⟨m.setActive active', ?_, ?_⟩
          · rw [batchLoop_cons empty layout.opened appended, if_neg some,
              if_neg partly]
          · rw [List.take_of_length_le (Nat.le_of_not_lt partly)] at first
            exact first

/-- The batch loop writes every entry.  A first pass that takes nothing is
followed by a rotation. -/
theorem batchLoop_grows
    {m : IndexedWal} {entries : List WALEntry} (ready : Ready config m)
    (fits : BatchFits config entries) (now : UInt64) :
    ∃ m', batchLoop config m entries 0 now = .ok m' ∧
      Grows config m m' entries := by
  by_cases empty : entries = []
  · subst empty
    exact ⟨m, batchLoop_nil m 0 now, grows_self ready⟩
  · obtain ⟨active, older, dir, later, layout⟩ := ready
    obtain ⟨active', written, appended, first, -⟩ := batchPass layout fits
    obtain ⟨m₁, rotated, roomy₁, second⟩ :=
      rotateSegment_grows first.ready now
    have both := first.trans second
    rw [List.append_nil] at both
    by_cases none : written = 0
    · obtain ⟨m₂, looped, third⟩ :=
        batchLoop_roomy 1 roomy₁ fits now
      refine ⟨m₂, ?_, ?_⟩
      · rw [batchLoop_cons empty layout.opened appended, if_pos none,
          if_neg (by omega), rotated]
        exact looped
      · have whole := both.trans third
        rw [none] at whole
        exact whole
    · by_cases partly : written < entries.length
      · obtain ⟨m₂, looped, third⟩ := batchLoop_roomy
          0 roomy₁ (fits.drop written) now
        refine ⟨m₂, ?_, ?_⟩
        · rw [batchLoop_cons empty layout.opened appended, if_neg none,
            if_pos partly, rotated]
          exact looped
        · have whole := both.trans third
          rw [List.take_append_drop] at whole
          exact whole
      · refine ⟨m.setActive active', ?_, ?_⟩
        · rw [batchLoop_cons empty layout.opened appended, if_neg none,
            if_neg partly]
        · rw [List.take_of_length_le (Nat.le_of_not_lt partly)] at first
          exact first

/-! ### Reading and opening -/

theorem sortDirs_eq_self
    {dirs : List FramesDir} (ascending : AscendingDirs dirs) :
    sortDirs dirs = dirs :=
  List.Pairwise.insertionSort_eq
    (ascending.imp fun less => Nat.le_of_lt less)

theorem eq_of_segmentId_eq
    {dirs : List FramesDir} (ascending : AscendingDirs dirs)
    {a b : FramesDir} (left : a ∈ dirs) (right : b ∈ dirs)
    (sameId : a.segmentId = b.segmentId) : a = b := by
  have distinct : (dirs.map (·.segmentId)).Nodup :=
    List.pairwise_map.mpr (ascending.imp Nat.ne_of_lt)
  exact List.inj_on_of_nodup_map distinct left right sameId

/-- What a fresh manager reads from a disk that sessions have left. -/
theorem readEntriesFromDisk_onDisk
    {disk : IndexedDisk} (onDisk : OnDisk config disk) :
    readEntriesFromDisk config disk =
      .ok (sortByTimestamp disk.recovered) := by
  have each : ∀ dir ∈ disk.dirs,
      readCommittedEntries (frameSize config) dir
        (readState (frameSize config) disk.latest dir) =
          .ok (dirEntries dir) := by
    intro dir member
    refine readCommittedEntries_ok (onDisk.dirsOk dir member) ?_
    have whole : IndexOk
        { WalIndexHeader.new dir.segmentId (frameSize config) with
          committedFrame := lastScanned dir } dir :=
      fun _ _ _ positive => absurd positive (Nat.lt_irrefl 0)
    cases latest : disk.latest with
    | none => exact whole
    | some state =>
        obtain ⟨older, named, later, dirs, name, indexOk, -, -⟩ :=
          onDisk.watermark state latest
        by_cases here : state.segmentId = dir.segmentId
        · have same : named = dir :=
            eq_of_segmentId_eq onDisk.ascending (by simp [dirs]) member
              (name.trans here)
          simp only [readState, if_pos here]
          exact same ▸ indexOk
        · simp only [readState, if_neg here]
          exact whole
  rw [readEntriesFromDisk, sortDirs_eq_self onDisk.ascending]
  change (disk.dirs.mapM (fun dir => readCommittedEntries (frameSize config)
    dir (readState (frameSize config) disk.latest dir)) >>= _) = _
  rw [mapM_eq_ok each]
  rfl

/-- An opened log holds what the disk held. -/
structure Opens (config : WalConfig) (disk : IndexedDisk) (m : IndexedWal) :
    Prop where
  ready : Ready config m
  recovered : m.disk.recovered = disk.recovered
  kept : KeepsFrames disk.dirs m.disk.dirs

theorem scanExistingSegments_above
    {disk : IndexedDisk} (onDisk : OnDisk config disk) :
    ∀ dir ∈ disk.dirs,
      dir.segmentId < scanExistingSegments (new disk) := by
  intro dir member
  cases root : disk.root with
  | false => simp [onDisk.root root] at member
  | true =>
      have bound :=
        (HighWater.le_foldl_max (disk.dirs.map (·.segmentId)) 0).2
          dir.segmentId (List.mem_map_of_mem member)
      simp only [scanExistingSegments, new, root, if_true]
      omega

/-- Going on behind the watermark. -/
theorem resumeSegment_opens
    {disk : IndexedDisk} {m : IndexedWal} (onDisk : OnDisk config disk)
    (resumed : resumeSegment
      { new disk with counter := scanExistingSegments (new disk) } =
        some m) :
    Opens config disk m := by
  obtain ⟨slots, state, found, index, latest, -, rfl⟩ :=
    exists_of_resumeSegment resumed
  have index : disk.index = some slots := index
  have read : disk.latest = some state := by
    rw [IndexedDisk.latest, index, Option.bind_some, latest]
  obtain ⟨older, dir, later, dirs, name, indexOk, below, unused⟩ :=
    onDisk.watermark state read
  have hasRoot : disk.root = true := by
    by_contra absent
    have none := onDisk.root (by simpa using absent)
    simp [none] at dirs
  have segment : SegmentLayout config
      ⟨disk, slots, state,
        ⟨state.segmentId, max (state.committedFrame + 1) 1, [], 0⟩⟩
      older dir later := by
    refine
      { index := index
        latest := latest
        root := hasRoot
        dirs := dirs
        ascending := dirs ▸ onDisk.ascending
        dirsOk := dirs ▸ onDisk.dirsOk
        unused := unused
        name := name
        latestName := rfl
        indexOk := indexOk
        positive := Nat.le_max_right _ _
        next := ?_
        link := by simp }
    intro file member
    rcases below file member with covered | ⟨here, torn⟩
    · left
      simp only
      omega
    · right
      exact ⟨by simp only; omega, torn⟩
  refine ⟨⟨_, older, dir, later, rfl, segment, staged_nil rfl rfl, ?_, ?_⟩,
    rfl, KeepsFrames.refl _⟩
  · exact scanExistingSegments_above onDisk
  · simp [new]

/-- Opening a log keeps its entries and its frames. -/
theorem initializeWal_opens
    {disk : IndexedDisk} (onDisk : OnDisk config disk) (now : UInt64) :
    ∃ m, initializeWal config (new disk) now = .ok m ∧
      Opens config disk m := by
  cases resume : resumeSegment
      { new disk with counter := scanExistingSegments (new disk) } with
  | some m =>
      exact ⟨m, by simp only [initializeWal, resume],
        resumeSegment_opens onDisk resume⟩
  | none =>
      have above := scanExistingSegments_above onDisk
      have roomy : Roomy config (startSegment config
          { new disk with counter := scanExistingSegments (new disk) }
          now) :=
        startSegment_roomy
          (m := { new disk with counter := scanExistingSegments (new disk) })
          onDisk.ascending onDisk.dirsOk above (by simp [new]) now
      refine ⟨_, ?_, roomy.ready, ?_, ?_⟩
      · simp only [initializeWal, resume]
        rfl
      · exact startSegment_recovered above now
      · rw [startSegment_dirs above]
        exact keepsFrames_append_right _ _

end IndexedWal

end F4kvsLsm
