import F4kvsLsm.Lib.Fallible
import F4kvsLsm.Lib.HighWater
import F4kvsLsm.Wal.FileWalInvariant
import F4kvsLsm.Wal.Indexed

/-!
# What the indexed log manager keeps

Frame files are only ever added behind the frames of the active segment, or
put in the place of a torn frame that holds no entry.  `recovered` is what the
frame files of a disk add up to, and a recovery reads exactly that as long as
every frame file is at least one frame long.
-/

namespace F4kvsLsm

open ByteCodec Fallible

/-- An entry whose record can be read back. -/
structure WALEntry.Recordable (entry : WALEntry) : Prop where
  fits : entry.encode.length < 2 ^ 32
  notJson : entry.holdsJson = false

namespace WALEntry.Recordable

theorem storable
    {entry : WALEntry} (recordable : entry.Recordable) :
    FileEngine.frame.Storable 0 entry :=
  ⟨recordable.fits, rfl, recordable.notJson⟩

end WALEntry.Recordable

namespace IndexedWalSegment

variable {config : WalConfig}

/-! ## Frames -/

theorem decodeFrames_of_bodies
    {bytes : Bytes} {entries : List WALEntry}
    (recordable : ∀ entry ∈ entries, entry.Recordable)
    (bodies : (scanFrames (fun _ => true) bytes).1 =
      entries.map WALEntry.encode) :
    decodeFrames bytes = .ok entries := by
  rw [decodeFrames, bodies]
  clear bodies
  induction entries with
  | nil => rfl
  | cons entry entries inductionHypothesis =>
      have front := (recordable entry (by simp)).storable.deserialize_encode
      have back := inductionHypothesis
        (fun other member => recordable other (by simp [member]))
      simp only [List.map_cons, List.mapM_cons, front, back]
      rfl

private theorem bodies_framable
    {entries : List WALEntry}
    (recordable : ∀ entry ∈ entries, entry.Recordable) :
    ∀ body ∈ entries.map WALEntry.encode,
      Framable (fun _ => true) body := by
  intro body member
  obtain ⟨entry, entryMember, rfl⟩ := List.mem_map.mp member
  exact ⟨entry.encode_length_ne_zero,
    (recordable entry entryMember).fits, rfl⟩

theorem decodeFrames_records
    {entries : List WALEntry}
    (recordable : ∀ entry ∈ entries, entry.Recordable) (padding : Nat) :
    decodeFrames (records entries ++ List.replicate padding 0) =
      .ok entries := by
  refine decodeFrames_of_bodies recordable ?_
  rw [records, scanFrames_frames_append (bodies_framable recordable),
    scanFrames_zeros, List.append_nil]

/-- A strict prefix of one record decodes to nothing. -/
theorem decodeFrames_torn
    {entry : WALEntry} (fits : entry.encode.length < 2 ^ 32)
    {cut : Nat} (strict : cut < (frame entry.encode).length) :
    decodeFrames ((frame entry.encode).take cut) = .ok [] := by
  refine decodeFrames_of_bodies (by simp) ?_
  rw [scanFrames_take_frame
    ⟨entry.encode_length_ne_zero, fits, rfl⟩ strict]
  rfl

/-- The entries of a frame file; a file that does not decode has none. -/
def frameEntries (content : Bytes) : List WALEntry :=
  match decodeFrames content with
  | .ok entries => entries
  | .error _ => []

def dirEntries (dir : FramesDir) : List WALEntry :=
  dir.frames.flatMap fun file => frameEntries file.2

/-- A frame directory that a recovery can read. -/
structure DirOk (config : WalConfig) (dir : FramesDir) : Prop where
  ascending : dir.frames.Pairwise fun a b => a.1 < b.1
  positive : ∀ file ∈ dir.frames, 1 ≤ file.1
  long : ∀ file ∈ dir.frames, frameSize config ≤ file.2.length
  decodes : ∀ file ∈ dir.frames,
    decodeFrames file.2 = .ok (frameEntries file.2)

/-- The watermark cuts nothing off the frame it points at. -/
def IndexOk (state : WalIndexHeader) (dir : FramesDir) : Prop :=
  ∀ file ∈ dir.frames, file.1 = state.committedFrame →
    state.committedOffset > 0 →
      state.committedOffset ≤ file.2.length ∧
        decodeFrames (file.2.take state.committedOffset) =
          decodeFrames file.2

/-! ## Reading a directory -/

theorem frameContent_cons_of_ne
    {id : Nat} {file : Nat × Bytes} {frames : List (Nat × Bytes)}
    {segmentId : Nat} {created : UInt64} (different : file.1 ≠ id) :
    frameContent ⟨segmentId, created, file :: frames⟩ id =
      frameContent ⟨segmentId, created, frames⟩ id := by
  simp [frameContent, different]

/-- The entries of the frame file with a number. -/
def entriesAt (dir : FramesDir) (id : Nat) : List WALEntry :=
  match frameContent dir id with
  | none => []
  | some content => frameEntries content

/-- Walking over a range of frame numbers meets exactly the frame files. -/
theorem flatMap_range_entriesAt
    {segmentId : Nat} {created : UInt64} {frames : List (Nat × Bytes)}
    (count first : Nat) (ascending : frames.Pairwise fun a b => a.1 < b.1)
    (inside : ∀ file ∈ frames, first ≤ file.1 ∧ file.1 < first + count) :
    (List.range' first count).flatMap
        (entriesAt ⟨segmentId, created, frames⟩) =
      dirEntries ⟨segmentId, created, frames⟩ := by
  induction count generalizing first frames with
  | zero =>
      cases frames with
      | nil => rfl
      | cons file frames =>
          have bound := inside file (by simp)
          omega
  | succ count inductionHypothesis =>
      rw [List.range'_succ, List.flatMap_cons]
      cases frames with
      | nil =>
          exact inductionHypothesis (first + 1) List.Pairwise.nil (by simp)
      | cons file frames =>
          obtain ⟨above, later⟩ := List.pairwise_cons.mp ascending
          have bound := inside file (by simp)
          by_cases here : file.1 = first
          · have rest := inductionHypothesis (first + 1) later (by
              intro other member
              have := above other member
              have := inside other (by simp [member])
              omega)
            have skipped : ∀ id ∈ List.range' (first + 1) count,
                entriesAt ⟨segmentId, created, file :: frames⟩ id =
                  entriesAt ⟨segmentId, created, frames⟩ id := by
              intro id member
              have lower := (List.mem_range'_1.mp member).1
              rw [entriesAt, frameContent_cons_of_ne (by omega), entriesAt]
            rw [List.flatMap_congr skipped, rest]
            simp [entriesAt, frameContent, here, dirEntries]
          · have rest := inductionHypothesis (first + 1) ascending (by
              intro other member
              have bounds := inside other member
              rcases List.mem_cons.mp member with rfl | tail
              · omega
              · have := above other tail
                omega)
            have missing : ∀ other ∈ file :: frames, other.1 ≠ first := by
              intro other member
              rcases List.mem_cons.mp member with rfl | tail
              · exact here
              · have := above other tail
                omega
            have absent : frameContent
                ⟨segmentId, created, file :: frames⟩ first = none := by
              rw [frameContent, Option.map_eq_none_iff, List.find?_eq_none]
              intro other member
              simpa using missing other member
            rw [entriesAt, absent, rest]
            rfl

theorem le_lastScanned
    {dir : FramesDir} {file : Nat × Bytes} (member : file ∈ dir.frames) :
    file.1 ≤ lastScanned dir :=
  (HighWater.le_foldl_max _ 0).2 file.1 (List.mem_map_of_mem member)

/-- The watermark cuts nothing off the last frame. -/
def LastOk (state : WalIndexHeader) (dir : FramesDir) : Prop :=
  ∀ file ∈ dir.frames, file.1 = state.committedFrame →
    file.1 = lastScanned dir → state.committedOffset > 0 →
      state.committedOffset ≤ file.2.length ∧
        decodeFrames (file.2.take state.committedOffset) =
          decodeFrames file.2

theorem IndexOk.lastOk
    {state : WalIndexHeader} {dir : FramesDir} (indexOk : IndexOk state dir) :
    LastOk state dir :=
  fun file member here _ positive => indexOk file member here positive

theorem readFrame_ok
    {dir : FramesDir} (dirOk : DirOk config dir) {state : WalIndexHeader}
    (lastOk : LastOk state dir) {file : Nat × Bytes}
    (member : file ∈ dir.frames) :
    readFrame (frameSize config)
        (frameLimit state (max state.committedFrame (lastScanned dir)) file.1
          file.2) file.2 =
      .ok (frameEntries file.2) := by
  have long := dirOk.long file member
  rw [readFrame, if_neg (by omega), ← dirOk.decodes file member]
  by_cases limited :
      file.1 = max state.committedFrame (lastScanned dir) ∧
        state.committedFrame =
          max state.committedFrame (lastScanned dir) ∧
        state.committedOffset > 0
  · rw [frameLimit, if_pos limited]
    obtain ⟨here, committed, positive⟩ := limited
    have bound := le_lastScanned member
    obtain ⟨inside, same⟩ := lastOk file member (here.trans committed.symm)
      (by omega) positive
    rw [if_neg (Nat.not_lt.mpr inside), same]
  · rw [frameLimit, if_neg limited, if_neg (Nat.lt_irrefl _),
      List.take_length]

theorem frameContent_eq_some
    {dir : FramesDir} {id : Nat} {content : Bytes}
    (found : frameContent dir id = some content) :
    (id, content) ∈ dir.frames := by
  simp only [frameContent, Option.map_eq_some_iff] at found
  obtain ⟨file, search, rfl⟩ := found
  have member := List.mem_of_find?_eq_some search
  have here := List.find?_some search
  simp only [decide_eq_true_eq] at here
  rw [← here]
  exact member

/-- A readable directory is read in full. -/
theorem readCommittedEntries_whole
    {dir : FramesDir} (dirOk : DirOk config dir) {state : WalIndexHeader}
    (lastOk : LastOk state dir) :
    readCommittedEntries (frameSize config) dir state =
      .ok (dirEntries dir) := by
  have each : ∀ id ∈
      List.range' 1 (max state.committedFrame (lastScanned dir)),
      readFrameAt (frameSize config) dir state
        (max state.committedFrame (lastScanned dir)) id =
          .ok (entriesAt dir id) := by
    intro id _
    cases found : frameContent dir id with
    | none => simp [readFrameAt, entriesAt, found]
    | some content =>
        have read := readFrame_ok dirOk lastOk (frameContent_eq_some found)
        simp only [readFrameAt, entriesAt, found, read]
  have walked : (List.range' 1
      (max state.committedFrame (lastScanned dir))).flatMap
        (entriesAt dir) = dirEntries dir :=
    flatMap_range_entriesAt _ 1 dirOk.ascending (by
      intro file member
      have := dirOk.positive file member
      have := le_lastScanned member
      omega)
  rw [readCommittedEntries, mapM_eq_ok each]
  exact congrArg Except.ok walked

theorem readCommittedEntries_ok
    {dir : FramesDir} (dirOk : DirOk config dir) {state : WalIndexHeader}
    (indexOk : IndexOk state dir) :
    readCommittedEntries (frameSize config) dir state =
      .ok (dirEntries dir) :=
  readCommittedEntries_whole dirOk indexOk.lastOk

end IndexedWalSegment

/-- A log that is gone on with has its handle behind the watermark of the
segment that the index names. -/
theorem IndexedWal.exists_of_resumeSegment
    {m m' : IndexedWal} (resumed : resumeSegment m = some m') :
    ∃ slots state dir, m.disk.index = some slots ∧
      slots.readLatest = some state ∧
      m.disk.dirs.find? (fun dir => dir.segmentId = state.segmentId) =
        some dir ∧
      m' = { m with
        handle := some (slots, state,
          ⟨state.segmentId, max (state.committedFrame + 1) 1, [], 0⟩) } := by
  simp only [resumeSegment, Option.bind_eq_bind,
    Option.bind_eq_some_iff] at resumed
  obtain ⟨slots, index, state, latest, dir, found, resumed⟩ := resumed
  split at resumed
  · exact ⟨slots, state, dir, index, latest, found,
      (Option.some.inj resumed).symm⟩
  · cases resumed

end F4kvsLsm
