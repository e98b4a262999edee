import F4kvsLsm.Wal.AppendOrder
import F4kvsLsm.Wal.Shutdown

/-!
# Truncations whose removals fail

Any removal of a file or a directory may fail.  The file backends then report
an error.  The indexed backend goes on, and its verification counts the
directories that are left.  The index may stay behind and point at the new
segment; as long as this has no frames its watermark cuts nothing.
-/

namespace F4kvsLsm

open ByteCodec

/-- The times at which a segment directory of the indexed backend is removed:
as the current one, as a tracked one, as one that is listed. -/
inductive RemovalPass where
  | current
  | tracked
  | listed

/-- How the removals of a truncation end: the error of an attempt at a file,
the frame files that are left of a directory that cannot be removed, and
whether `wal.idx` stays. -/
structure Removals where
  file : Nat → Nat → Option String
  frames : RemovalPass → Nat → Option (Nat → Bool)
  index : Bool

/-! ## One file a segment -/

namespace FileWal

/-- `remove_file_with_retries` of the segment backend, `remove_file` of the
frame backend; returns the error of the last attempt. -/
def removeFile (engine : FileEngine) (attempt : Nat → Option String) :
    Option String :=
  match engine with
  | .frame => attempt 0
  | .segment =>
      match attempt 0 with
      | none => none
      | some _ =>
          match attempt 1 with
          | none => none
          | some _ => attempt 2

def removeFiles (engine : FileEngine) (attempts : Nat → Nat → Option String)
    (dir : List WalFile) : List WalFile → List WalFile × Option String
  | [] => (dir, none)
  | file :: listing =>
      match removeFile engine (attempts file.id) with
      | some error => (dir, some error)
      | none =>
          removeFiles engine attempts (dir.filter (·.id ≠ file.id)) listing

def incompleteTruncation (engine : FileEngine) (remaining : Nat) : String :=
  match engine with
  | .segment => "WAL truncation incomplete: " ++ toString remaining ++
      " segment file(s) still on disk after wipe"
  | .frame =>
      "frame WAL truncation incomplete: residual frame_*.wal still on disk"

/-- `truncate_after_flush` with removals that may fail. -/
def tryTruncateAfterFlush (engine : FileEngine) (config : WalConfig)
    (attempts : Nat → Nat → Option String) (m : FileWal) (now : UInt64) :
    FileWal × Except LsmError Unit :=
  let listing := truncationListing engine m
  match removeFiles engine attempts listing listing with
  | (dir, some error) =>
      ({ m with dir := dir, current := none, segments := [] },
        .error (.io error))
  | (dir, none) =>
      if dir.length > 0 then
        ({ m with dir := dir, current := none, segments := [] },
          .error (.io (incompleteTruncation engine dir.length)))
      else
        (rotateSegment engine config
            { m with dir := dir, current := none, segments := [] } now,
          .ok ())

/-- Only the segment backend looks at the name of the file that is left. -/
def verifyTruncated (engine : FileEngine) (m : FileWal) : Bool :=
  match m.current with
  | none => false
  | some segment =>
      if ¬ m.segments.isEmpty then false
      else if m.dir.length > 1 then false
      else
        match engine, m.dir with
        | .segment, file :: _ => file.id = segment.id
        | _, _ => true

variable {engine : FileEngine} {config : WalConfig}

/-- A truncation that reports success has removed every file. -/
theorem tryTruncateAfterFlush_ok
    {attempts : Nat → Nat → Option String} {m m' : FileWal} {now : UInt64}
    (truncated : tryTruncateAfterFlush engine config attempts m now =
      (m', .ok ())) :
    m' = truncateAfterFlush engine config m now := by
  simp only [tryTruncateAfterFlush] at truncated
  cases removed : removeFiles engine attempts (truncationListing engine m)
      (truncationListing engine m) with
  | mk dir error =>
      rw [removed] at truncated
      cases error with
      | some error => cases truncated
      | none =>
          by_cases left : dir.length > 0
          · simp only [if_pos left] at truncated
            cases truncated
          · simp only [if_neg left] at truncated
            have empty : dir = [] :=
              List.eq_nil_of_length_eq_zero (by omega)
            have wiped : removeListed (truncationListing engine m)
                (truncationListing engine m).length = [] := List.drop_length
            rw [Prod.mk.injEq] at truncated
            rw [truncateAfterFlush, wiped, ← truncated.1, empty]

end FileWal

/-! ## One directory a segment -/

namespace IndexedWal

open IndexedWalSegment

/-- What `remove_dir_all` leaves; its error is not looked at. -/
def removeFramesDir (left : Option (Nat → Bool)) (dir : FramesDir) :
    Option FramesDir :=
  left.map fun stays =>
    { dir with frames := dir.frames.filter fun file => stays file.1 }

def removeSegmentDir (left : Option (Nat → Bool)) (dirs : List FramesDir)
    (id : Nat) : List FramesDir :=
  dirs.filterMap fun dir =>
    if dir.segmentId = id then removeFramesDir left dir else some dir

/-- The directories after the three passes. -/
def removeDirs (removals : Removals) (m : IndexedWal) : List FramesDir :=
  let dirs :=
    match m.handle with
    | some (_, _, segment) =>
        removeSegmentDir (removals.frames .current segment.segmentId)
          m.disk.dirs segment.segmentId
    | none => m.disk.dirs
  let dirs := m.segments.foldl
    (fun dirs id => removeSegmentDir (removals.frames .tracked id) dirs id)
    dirs
  if m.disk.root then
    dirs.filterMap fun dir =>
      removeFramesDir (removals.frames .listed dir.segmentId) dir
  else dirs

/-- `truncate_after_flush` with removals that may fail. -/
def tryTruncateAfterFlush (config : WalConfig) (removals : Removals)
    (m : IndexedWal) (now : UInt64) : IndexedWal :=
  startSegment config
    { m with
      disk := ⟨if removals.index then m.disk.index else none, m.disk.root,
        removeDirs removals m⟩
      handle := none
      segments := [] }
    now

def verifyTruncated (m : IndexedWal) : Bool :=
  if ¬ m.segments.isEmpty then false
  else if ¬ m.disk.root then true
  else m.disk.dirs.length ≤ 1

section

variable {config : WalConfig} {m : IndexedWal}

theorem removeFramesDir_id
    {left : Option (Nat → Bool)} {dir dir' : FramesDir}
    (removed : removeFramesDir left dir = some dir') :
    dir'.segmentId = dir.segmentId := by
  cases left with
  | none => cases removed
  | some stays =>
      cases removed
      rfl

theorem removeSegmentDir_ids
    (left : Option (Nat → Bool)) (dirs : List FramesDir) (id : Nat) :
    ∀ dir' ∈ removeSegmentDir left dirs id,
      ∃ dir ∈ dirs, dir'.segmentId = dir.segmentId := by
  intro dir' member
  obtain ⟨dir, inside, removed⟩ := List.mem_filterMap.mp member
  by_cases here : dir.segmentId = id
  · rw [if_pos here] at removed
    exact ⟨dir, inside, removeFramesDir_id removed⟩
  · rw [if_neg here, Option.some.injEq] at removed
    exact ⟨dir, inside, by rw [removed]⟩

/-- No removal makes a new directory. -/
theorem removeDirs_ids
    (removals : Removals) (m : IndexedWal) :
    ∀ dir' ∈ removeDirs removals m, dir'.segmentId ∈ ids m.disk := by
  have first : ∀ dir' ∈ (match m.handle with
      | some (_, _, segment) =>
          removeSegmentDir (removals.frames .current segment.segmentId)
            m.disk.dirs segment.segmentId
      | none => m.disk.dirs), dir'.segmentId ∈ ids m.disk := by
    intro dir' member
    cases opened : m.handle with
    | none =>
        rw [opened] at member
        exact List.mem_map_of_mem member
    | some handle =>
        obtain ⟨slots, latest, segment⟩ := handle
        rw [opened] at member
        obtain ⟨dir, inside, same⟩ := removeSegmentDir_ids _ _ _ dir' member
        rw [same]
        exact List.mem_map_of_mem inside
  have second : ∀ (segments : List Nat) (dirs : List FramesDir),
      (∀ dir' ∈ dirs, dir'.segmentId ∈ ids m.disk) →
      ∀ dir' ∈ segments.foldl (fun dirs id =>
          removeSegmentDir (removals.frames .tracked id) dirs id) dirs,
        dir'.segmentId ∈ ids m.disk := by
    intro segments
    induction segments with
    | nil => exact fun dirs inside => inside
    | cons id segments inductionHypothesis =>
        intro dirs inside
        apply inductionHypothesis
        intro dir' member
        obtain ⟨dir, there, same⟩ := removeSegmentDir_ids _ _ _ dir' member
        rw [same]
        exact inside dir there
  intro dir' member
  rw [removeDirs] at member
  split at member
  · obtain ⟨dir, inside, removed⟩ := List.mem_filterMap.mp member
    rw [removeFramesDir_id removed]
    exact second m.segments _ first dir inside
  · exact second m.segments _ first dir' member

/-- A verified truncation leaves no frame, whatever index it leaves. -/
theorem tryTruncateAfterFlush_verified
    (above : ∀ id ∈ ids m.disk, id < m.counter) (removals : Removals)
    (now : UInt64)
    (verified : (tryTruncateAfterFlush config removals m
      now).verifyTruncated = true) :
    Ready config (tryTruncateAfterFlush config removals m now) ∧
      (tryTruncateAfterFlush config removals m now).disk.recovered = [] := by
  have aboveLeft : ∀ dir ∈ removeDirs removals m,
      dir.segmentId < m.counter :=
    fun dir member => above _ (removeDirs_ids removals m dir member)
  have dirs : (tryTruncateAfterFlush config removals m now).disk.dirs =
      removeDirs removals m ++ [⟨m.counter, now, []⟩] :=
    startSegment_dirs aboveLeft now
  have size : (tryTruncateAfterFlush config removals m now).disk.dirs.length ≤
      1 := of_decide_eq_true verified
  have empty : removeDirs removals m = [] := by
    rw [dirs, List.length_append, List.length_singleton] at size
    exact List.eq_nil_of_length_eq_zero (by omega)
  have roomy : Roomy config (tryTruncateAfterFlush config removals m now) := by
    apply startSegment_roomy _ _ _ (by simp)
    · change AscendingDirs (removeDirs removals m)
      rw [empty]
      exact List.Pairwise.nil
    · change ∀ dir ∈ removeDirs removals m, DirOk config dir
      rw [empty]
      simp
    · exact aboveLeft
  refine ⟨roomy.ready, ?_⟩
  rw [IndexedDisk.recovered, dirs, empty]
  rfl

/-! ## Segment numbers -/

/-- Every directory has a smaller number than the next segment. -/
def Numbered (m : IndexedWal) : Prop :=
  ∀ id ∈ ids m.disk, id < m.counter

theorem startSegment_numbered
    (numbered : m.Numbered) (now : UInt64) :
    (startSegment config m now).Numbered := by
  intro id member
  change id < m.counter + 1
  rw [ids_startSegment numbered] at member
  rcases List.mem_append.mp member with old | new
  · exact Nat.lt_succ_of_lt (numbered id old)
  · rw [List.mem_singleton.mp new]
    exact Nat.lt_succ_self _

theorem WalStep.numbered
    {state state' : Tracked} {taken : List WALEntry}
    (step : WalStep config state taken state')
    (numbered : state.wal.Numbered) : state'.wal.Numbered := by
  have commits : ∀ {wal : IndexedWal} {active : ActiveSegment}
      (bytes : Bytes) (entries : Nat), wal.active = some active →
      wal.Numbered →
      (wal.setActive (commitFrame config active bytes entries)).Numbered := by
    intro wal active bytes entries opened numbered id member
    change id ∈ ids (putFrameFile active.disk _ _ _) at member
    rw [ids_putFrameFile, active_disk opened] at member
    exact numbered id member
  cases step with
  | @stage wal _ active entry opened capacity =>
      intro id member
      change id ∈ ids active.disk at member
      rw [active_disk opened] at member
      exact numbered id member
  | flush opened filled capacity => exact commits _ _ opened numbered
  | oversize entry opened empty capacity => exact commits _ _ opened numbered
  | @rotate wal _ active now opened empty =>
      exact startSegment_numbered (m := sealSegment wal _) numbered now

theorem WalSteps.numbered
    {state state' : Tracked} {taken : List WALEntry}
    (steps : WalSteps config state taken state')
    (numbered : state.wal.Numbered) : state'.wal.Numbered := by
  induction steps with
  | refl => exact numbered
  | tail _ step inductionHypothesis => exact step.numbered inductionHypothesis

theorem tryTruncateAfterFlush_numbered
    (numbered : m.Numbered) (removals : Removals) (now : UInt64) :
    (tryTruncateAfterFlush config removals m now).Numbered := by
  apply startSegment_numbered
  intro id member
  obtain ⟨dir, inside, rfl⟩ := List.mem_map.mp member
  exact numbered _ (removeDirs_ids removals m dir inside)

/-- A manager on any directory; `frames/` is there if it has a segment. -/
theorem initializeWal_numbered
    {disk : IndexedDisk} (rooted : disk.root = false → disk.dirs = [])
    {now : UInt64} (opens : initializeWal config (new disk) now = .ok m) :
    Open config m ∧ m.Numbered := by
  have above : ({ new disk with
      counter := scanExistingSegments (new disk) } : IndexedWal).Numbered := by
    intro id member
    cases root : disk.root with
    | true => exact scanExistingSegments_above_ids root id member
    | false =>
        change id ∈ ids disk at member
        rw [ids, rooted root] at member
        cases member
  cases resumed : resumeSegment
      { new disk with counter := scanExistingSegments (new disk) } with
  | none =>
      simp only [initializeWal, resumed] at opens
      cases opens
      exact ⟨(startSegment_fresh _ now).isOpen,
        startSegment_numbered above now⟩
  | some m' =>
      simp only [initializeWal, resumed, Except.ok.injEq] at opens
      subst opens
      obtain ⟨slots, header, dir, -, -, -, rfl⟩ :=
        exists_of_resumeSegment resumed
      exact ⟨⟨_, rfl, between_of_empty rfl⟩, above⟩

end

end IndexedWal

/-! ## Truncation of a handle -/

namespace WalHandle

variable (config : WalConfig)

/-- `truncate_after_flush` with removals that may fail. -/
def tryTruncateAfterFlush (removals : Removals) (handle : WalHandle)
    (now : UInt64) : WalHandle × Except LsmError Unit :=
  match handle with
  | .segment wal =>
      let (wal, result) := FileWal.tryTruncateAfterFlush .segment config
        removals.file wal now
      (.segment wal, result)
  | .frame wal =>
      let (wal, result) := FileWal.tryTruncateAfterFlush .frame config
        removals.file wal now
      (.frame wal, result)
  | .indexed wal =>
      (.indexed (IndexedWal.tryTruncateAfterFlush config removals wal now),
        .ok ())

def verifyTruncated : WalHandle → Bool
  | .segment wal => FileWal.verifyTruncated .segment wal
  | .frame wal => FileWal.verifyTruncated .frame wal
  | .indexed wal => wal.verifyTruncated

end WalHandle

/-- A directory that can exist: segments of the indexed backend are in
`frames/`. -/
def WalDisk.Rooted : WalDisk → Prop
  | .indexed disk => disk.root = false → disk.dirs = []
  | _ => True

/-- An initialized manager of any directory after any calls, flushes and
attempts to truncate. -/
inductive ManagerRun (config : WalConfig) : WalHandle → Prop where
  | opened {handle : WalHandle} (disk : WalDisk) (rooted : disk.Rooted)
      (start : UInt64) (opens : disk.openWal config start = .ok handle) :
      ManagerRun config handle
  | called {handle handle' : WalHandle} (call : WalCall)
      (run : ManagerRun config handle)
      (called : handle.call config call = .ok handle') :
      ManagerRun config handle'
  | flushed {handle handle' : WalHandle} (run : ManagerRun config handle)
      (flushes : handle.flush config = .ok handle') :
      ManagerRun config handle'
  | truncated {handle : WalHandle} (removals : Removals) (now : UInt64)
      (run : ManagerRun config handle) :
      ManagerRun config (handle.tryTruncateAfterFlush config removals now).1

section

variable {config : WalConfig} {handle handle' : WalHandle}

def WalHandle.Numbered (config : WalConfig) : WalHandle → Prop
  | .indexed wal => IndexedWal.Open config wal ∧ wal.Numbered
  | _ => True

theorem openWal_numbered
    {disk : WalDisk} (rooted : disk.Rooted) {start : UInt64}
    (opens : disk.openWal config start = .ok handle) :
    handle.Numbered config := by
  cases disk with
  | segment dir =>
      cases opens
      trivial
  | frame dir =>
      cases opens
      trivial
  | indexed disk =>
      cases opened : IndexedWal.initializeWal config (.new disk) start with
      | error e =>
          simp only [WalDisk.openWal, opened] at opens
          cases opens
      | ok wal =>
          simp only [WalDisk.openWal, opened] at opens
          cases opens
          exact IndexedWal.initializeWal_numbered rooted opened

theorem map_ok
    {α β : Type} {f : α → β} {result : Except LsmError α} {b : β}
    (mapped : result.map f = .ok b) : ∃ a, result = .ok a ∧ f a = b := by
  cases result with
  | error e => cases mapped
  | ok a =>
      cases mapped
      exact ⟨a, rfl, rfl⟩

theorem call_numbered
    (numbered : handle.Numbered config) {call : WalCall}
    (called : handle.call config call = .ok handle') :
    handle'.Numbered config := by
  cases handle with
  | segment wal =>
      cases call <;> obtain ⟨wal', -, rfl⟩ := map_ok called <;> trivial
  | frame wal =>
      cases call <;> obtain ⟨wal', -, rfl⟩ := map_ok called <;> trivial
  | indexed wal =>
      obtain ⟨isOpen, numbers⟩ := numbered
      obtain ⟨operation, -, same⟩ := indexed_call call
      obtain ⟨wal', versions, called', steps, isOpen'⟩ :=
        IndexedWal.call_steps isOpen [] operation
      rw [same, called'] at called
      cases called
      exact ⟨isOpen', steps.numbered numbers⟩

theorem flush_numbered
    (numbered : handle.Numbered config)
    (flushes : handle.flush config = .ok handle') :
    handle'.Numbered config := by
  cases handle with
  | segment wal =>
      cases flushes
      trivial
  | frame wal =>
      cases flushes
      trivial
  | indexed wal =>
      obtain ⟨isOpen, numbers⟩ := numbered
      obtain ⟨wal', versions, flushes', steps, isOpen'⟩ :=
        IndexedWal.flush_steps isOpen []
      obtain ⟨wal'', same, rfl⟩ := map_ok flushes
      rw [flushes', Except.ok.injEq] at same
      subst same
      exact ⟨isOpen', steps.numbered numbers⟩

theorem tryTruncateAfterFlush_numbered
    (numbered : handle.Numbered config) (removals : Removals)
    (now : UInt64) :
    (handle.tryTruncateAfterFlush config removals now).1.Numbered config := by
  cases handle with
  | segment wal => trivial
  | frame wal => trivial
  | indexed wal =>
      exact ⟨(IndexedWal.startSegment_fresh _ now).isOpen,
        IndexedWal.tryTruncateAfterFlush_numbered numbered.2 removals now⟩

theorem ManagerRun.numbered (run : ManagerRun config handle) :
    handle.Numbered config := by
  induction run with
  | opened disk rooted start opens => exact openWal_numbered rooted opens
  | called call _ called inductionHypothesis =>
      exact call_numbered inductionHypothesis called
  | flushed _ flushes inductionHypothesis =>
      exact flush_numbered inductionHypothesis flushes
  | truncated removals now _ inductionHypothesis =>
      exact tryTruncateAfterFlush_numbered inductionHypothesis removals now

/-- A truncation that succeeds and is verified leaves an open log without
entries. -/
theorem verified_emptied
    (numbered : handle.Numbered config) {removals : Removals} {now : UInt64}
    (truncated : handle.tryTruncateAfterFlush config removals now =
      (handle', .ok ()))
    (verified : handle'.verifyTruncated = true) :
    WalHandle.Emptied config handle handle' := by
  cases handle with
  | segment wal =>
      cases tried : FileWal.tryTruncateAfterFlush .segment config
          removals.file wal now with
      | mk wal' result =>
          simp only [WalHandle.tryTruncateAfterFlush, tried,
            Prod.mk.injEq] at truncated
          obtain ⟨rfl, rfl⟩ := truncated
          rw [FileWal.tryTruncateAfterFlush_ok tried]
          exact WalHandle.truncateAfterFlush_emptied (.segment wal) now
  | frame wal =>
      cases tried : FileWal.tryTruncateAfterFlush .frame config
          removals.file wal now with
      | mk wal' result =>
          simp only [WalHandle.tryTruncateAfterFlush, tried,
            Prod.mk.injEq] at truncated
          obtain ⟨rfl, rfl⟩ := truncated
          rw [FileWal.tryTruncateAfterFlush_ok tried]
          exact WalHandle.truncateAfterFlush_emptied (.frame wal) now
  | indexed wal =>
      cases truncated
      have emptied := IndexedWal.tryTruncateAfterFlush_verified numbered.2
        removals now verified
      exact ⟨rfl, emptied.1, emptied.2⟩

end

/-- After a truncation that succeeds and is verified, whatever was on disk
and whichever removals have failed, a fresh manager reads nothing; and after
any admissible calls it reads exactly their entries. -/
theorem verified_truncation_is_complete
    (config : WalConfig) (handle emptied : WalHandle)
    (run : ManagerRun config handle) (removals : Removals) (now : UInt64)
    (truncated : handle.tryTruncateAfterFlush config removals now =
      (emptied, .ok ()))
    (verified : emptied.verifyTruncated = true) :
    emptied.disk.readEntriesForRecovery config = .ok [] ∧
      ∀ calls : List WalCall,
        (∀ call ∈ calls,
          WalHandle.Admissible config handle.disk.engine call) →
        ∃ handle', emptied.runCalls config calls = .ok handle' ∧
          handle'.disk.readEntriesForRecovery config =
            .ok (sortByTimestamp (calls.flatMap WalCall.entries)) := by
  obtain ⟨engine, ready, recovered⟩ :=
    verified_emptied run.numbered truncated verified
  constructor
  · rw [WalDisk.readEntriesForRecovery_onDisk ready.onDisk, recovered]
    rfl
  · intro calls admissible
    rw [← engine] at admissible
    obtain ⟨handle', ran, grows⟩ :=
      WalHandle.runCalls_grows ready admissible
    refine ⟨handle', ran, ?_⟩
    rw [WalDisk.readEntriesForRecovery_onDisk grows.ready.onDisk,
      grows.recovered, recovered, List.nil_append]

/-- Removals that all succeed. -/
def noneFails : Removals := ⟨fun _ _ => none, fun _ _ => none, false⟩

/-- The index cannot be removed after a put, and points at the new
segment. -/
theorem stale_index_is_harmless :
    ∃ handle emptied : WalHandle,
      handle.tryTruncateAfterFlush WalHandle.smallConfig
        { noneFails with index := true } 3 = (emptied, .ok ()) ∧
      emptied.disk.readEntriesForRecovery WalHandle.smallConfig = .ok [] := by
  have opened : ManagerRun WalHandle.smallConfig _ :=
    .opened (.empty .indexed) (fun _ => rfl) 1 rfl
  have written := ManagerRun.called (.writeOperation "k" (.bool true) 2)
    opened rfl
  have reached : ∃ wal, ManagerRun WalHandle.smallConfig (.indexed wal) ∧
      (IndexedWal.tryTruncateAfterFlush WalHandle.smallConfig
        { noneFails with index := true } wal 3).verifyTruncated = true :=
    ⟨_, written, rfl⟩
  obtain ⟨wal, run, verified⟩ := reached
  have complete := verified_truncation_is_complete WalHandle.smallConfig
    (.indexed wal) _ run { noneFails with index := true } 3 rfl verified
  exact ⟨.indexed wal, _, rfl, complete.1⟩

/-- An oversized put after a truncation is acknowledged and not read back. -/
theorem oversized_put_after_truncation_is_lost :
    ∃ opened emptied handle : WalHandle,
      (WalDisk.empty .segment).openWal WalHandle.smallConfig 1 =
        .ok opened ∧
      opened.tryTruncateAfterFlush WalHandle.smallConfig noneFails 2 =
        (emptied, .ok ()) ∧
      emptied.verifyTruncated = true ∧
      emptied.call WalHandle.smallConfig
        (.writeOperation "k" (.bytes (List.replicate 1024 0)) 3) =
          .ok handle ∧
      handle.disk.readEntriesForRecovery WalHandle.smallConfig = .ok [] := by
  have emptied := FileWal.truncateAfterFlush_ready .segment
    WalHandle.smallConfig
    (FileWal.initializeWal .segment WalHandle.smallConfig (.new []) 1) 2
  have oversized : WalHandle.smallConfig.segmentSize <
      FileEngine.segment.headerSize +
        ((WALEntry.put "k" (.bytes (List.replicate 1024 0)) 3).encode.length +
          4) := by
    simp only [WalHandle.smallConfig, FileEngine.headerSize, WALEntry.encode,
      Value.encode, encodeByteVec, List.length_append, List.length_replicate]
    omega
  obtain ⟨wal, written, grows⟩ :=
    WalHandle.oversized_entry_is_dropped emptied.1 oversized 3
  refine ⟨.segment (FileWal.initializeWal .segment WalHandle.smallConfig
      (.new []) 1),
    .segment (FileWal.truncateAfterFlush .segment WalHandle.smallConfig
      (FileWal.initializeWal .segment WalHandle.smallConfig (.new []) 1) 2),
    .segment wal, rfl, rfl, rfl, ?_, ?_⟩
  · simp only [WalHandle.call, WalHandle.writeOperation,
      FileWal.writeOperation, written]
    rfl
  · have ready : (WalHandle.segment wal).Ready WalHandle.smallConfig :=
      grows.ready
    have nothing : (WalHandle.segment wal).disk.recovered
        WalHandle.smallConfig = [] := by
      change FileWal.recovered .segment WalHandle.smallConfig wal.dir = []
      rw [grows.recovered, emptied.2]
      rfl
    rw [WalDisk.readEntriesForRecovery_onDisk ready.onDisk, nothing]
    rfl

end F4kvsLsm
