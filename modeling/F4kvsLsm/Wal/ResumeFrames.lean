import F4kvsLsm.Lib.Runs
import F4kvsLsm.Wal.IndexedLog

/-!
# Where a session of the indexed log goes on

A session goes on behind the frame that `wal.idx` names.  After a power loss
the index may be older than the frame files, so the next frame number may
belong to a file that holds acknowledged entries.  It does not when the
surviving index is at or behind the last such file of its segment.
-/

namespace F4kvsLsm

open ByteCodec Transitions

namespace IndexedWal

open IndexedWalSegment

/-- A session with the frames that matter, by segment and frame number: those
that hold entries of calls that have returned, and those written by the call
in flight.  `owed` tells whether the staging buffer holds acknowledged
entries. -/
structure SessionState where
  tracked : Tracked
  held : List (Nat × Nat)
  fresh : List (Nat × Nat)
  owed : Bool

/-- The frame file that the next `write_frame_file` writes. -/
def target (active : ActiveSegment) : Nat × Nat :=
  (active.segment.segmentId, active.segment.stagingFrame)

inductive SessionAction where
  | stage (entry : WALEntry)
  | flush
  | oversize (entry : WALEntry)
  | rotate (now : UInt64)
  | returned
  | restart (version : Option IndexSlots) (created : Option UInt64)
      (now : UInt64)

/-- What a crash leaves when the index goes back to `version`; a rotation may
have created its directory already. -/
def crashImage (wal : IndexedWal) (version : Option IndexSlots)
    (created : Option UInt64) : IndexedDisk :=
  { index := version
    root := wal.disk.root
    dirs := wal.disk.dirs ++
      created.toList.map fun now => ⟨wal.counter, now, []⟩ }

/-- A session and the crashes that end it.  After a restart the index on disk
is the one that the new session has found or written. -/
inductive SessionStep (config : WalConfig) :
    SessionState → SessionAction → SessionState → Prop where
  | stage {state : SessionState} {active : ActiveSegment}
      (entry : WALEntry) (opened : state.tracked.wal.active = some active)
      (capacity : hasFrameCapacity config active.segment = true) :
      SessionStep config state (.stage entry)
        { state with
          tracked :=
            ⟨state.tracked.wal.setActive (stage active (encodeEntry entry)),
              state.tracked.versions⟩ }
  | flush {state : SessionState} {active : ActiveSegment}
      (opened : state.tracked.wal.active = some active)
      (filled : active.segment.staging ≠ [])
      (capacity : hasFrameCapacity config active.segment = true) :
      SessionStep config state .flush
        { tracked :=
            ⟨state.tracked.wal.setActive (flushed config active),
              state.tracked.versions ++
                [(flushed config active).disk.index]⟩
          held :=
            if state.owed then state.held ++ [target active] else state.held
          fresh :=
            if state.owed then state.fresh
            else state.fresh ++ [target active]
          owed := false }
  | oversize {state : SessionState} {active : ActiveSegment}
      (entry : WALEntry) (opened : state.tracked.wal.active = some active)
      (empty : active.segment.staging = [])
      (capacity : hasFrameCapacity config active.segment = true) :
      SessionStep config state (.oversize entry)
        { state with
          tracked :=
            ⟨state.tracked.wal.setActive
                (commitFrame config active (encodeEntry entry) 1),
              state.tracked.versions ++
                [(commitFrame config active
                  (encodeEntry entry) 1).disk.index]⟩
          fresh := state.fresh ++ [target active] }
  | rotate {state : SessionState} {active : ActiveSegment} (now : UInt64)
      (opened : state.tracked.wal.active = some active)
      (empty : active.segment.staging = []) :
      SessionStep config state (.rotate now)
        { state with
          tracked :=
            ⟨startSegment config
                (sealSegment state.tracked.wal active.segment.segmentId) now,
              [(startSegment config
                (sealSegment state.tracked.wal
                  active.segment.segmentId) now).disk.index]⟩ }
  | returned {state : SessionState} {active : ActiveSegment}
      (opened : state.tracked.wal.active = some active) :
      SessionStep config state .returned
        { tracked := state.tracked
          held := state.held ++ state.fresh
          fresh := []
          owed := ¬ active.segment.staging.isEmpty }
  | restart {state : SessionState} {wal : IndexedWal}
      {version : Option IndexSlots} (created : Option UInt64) (now : UInt64)
      (survived : version ∈ state.tracked.versions)
      (opens : initializeWal config
        (new (crashImage state.tracked.wal version created)) now = .ok wal) :
      SessionStep config state (.restart version created now)
        { tracked := ⟨wal, [wal.disk.index]⟩
          held := state.held
          fresh := []
          owed := false }

def firstSession (config : WalConfig) (now : UInt64) : SessionState :=
  let wal := startSegment config (new noDisk) now
  ⟨⟨wal, [wal.disk.index]⟩, [], [], false⟩

theorem firstSession_opens (config : WalConfig) (now : UInt64) :
    initializeWal config (new noDisk) now =
      .ok (firstSession config now).tracked.wal := rfl

variable {config : WalConfig}

/-- The index that survives a crash is not behind the acknowledged frames of
the segment it names. -/
def Covers (state : SessionState) (version : Option IndexSlots) : Prop :=
  ∀ header, version.bind IndexSlots.readLatest = some header →
    ∀ frame, (header.segmentId, frame) ∈ state.held →
      frame ≤ header.committedFrame

def Allowed (state : SessionState) : SessionAction → Prop
  | .restart version _ _ => Covers state version
  | _ => True

/-- The step writes a frame file that holds acknowledged entries. -/
def Overwrites (state : SessionState) (action : SessionAction) : Prop :=
  ∃ active, state.tracked.wal.active = some active ∧
    target active ∈ state.held ∧
    match action with
    | .flush => True
    | .oversize _ => True
    | _ => False

theorem WalStep.session
    {tracked tracked' : Tracked} {taken : List WALEntry}
    (step : WalStep config tracked taken tracked') {state : SessionState}
    (same : state.tracked = tracked) :
    ∃ action state', Allowed state action ∧
      SessionStep config state action state' ∧ state'.tracked = tracked' := by
  subst same
  obtain ⟨tracked, held, fresh, owed⟩ := state
  cases step with
  | stage entry opened capacity =>
      exact ⟨.stage entry, _, trivial, .stage entry opened capacity, rfl⟩
  | flush opened filled capacity =>
      exact ⟨.flush, _, trivial, .flush opened filled capacity, rfl⟩
  | oversize entry opened empty capacity =>
      exact ⟨.oversize entry, _, trivial,
        .oversize entry opened empty capacity, rfl⟩
  | rotate now opened empty =>
      exact ⟨.rotate now, _, trivial, .rotate now opened empty, rfl⟩

theorem WalSteps.session
    {tracked tracked' : Tracked} {taken : List WALEntry}
    (steps : WalSteps config tracked taken tracked') {state : SessionState}
    (same : state.tracked = tracked) :
    ∃ state', state'.tracked = tracked' ∧
      Reaches (SessionStep config) Allowed state state' := by
  induction steps with
  | refl => exact ⟨state, same, Reaches.start state⟩
  | tail _ step inductionHypothesis =>
      obtain ⟨middle, here, run⟩ := inductionHypothesis
      obtain ⟨action, last, allowed, taken, there⟩ := step.session here
      exact ⟨last, there, run.next action allowed taken⟩

theorem call_session
    {state : SessionState} (isOpen : Open config state.tracked.wal)
    (operation : IndexedCall) :
    ∃ middle state',
      call config state.tracked.wal operation = .ok state'.tracked.wal ∧
      Reaches (SessionStep config) Allowed state middle ∧
      SessionStep config middle .returned state' := by
  obtain ⟨wal', versions', called, steps, active, opened, -⟩ :=
    call_steps isOpen state.tracked.versions operation
  obtain ⟨middle, here, run⟩ := steps.session rfl
  have opened' : middle.tracked.wal.active = some active := by
    rw [here]
    exact opened
  refine ⟨middle, _, ?_, run, .returned opened'⟩
  rw [called, here]

/-! ## The next frame is free -/

/-- The numbers of the directories. -/
def ids (disk : IndexedDisk) : List Nat := disk.dirs.map (·.segmentId)

/-- Every frame that matters is in a directory and, in the open segment, in
front of the next frame. -/
structure Guarded (state : SessionState) : Prop where
  isOpen : ∃ active, state.tracked.wal.active = some active ∧
    active.segment.segmentId ∈ ids state.tracked.wal.disk ∧
    ∀ frame, (active.segment.segmentId, frame) ∈ state.held ++ state.fresh →
      frame < active.segment.stagingFrame
  located : ∀ file ∈ state.held ++ state.fresh,
    file.1 ∈ ids state.tracked.wal.disk
  above : ∀ id ∈ ids state.tracked.wal.disk, id < state.tracked.wal.counter
  root : state.tracked.wal.disk.root = true

theorem ids_putFrameFile
    (disk : IndexedDisk) (segmentId frame : Nat) (content : Bytes) :
    ids (putFrameFile disk segmentId frame content) = ids disk := by
  simp only [ids, putFrameFile, List.map_map]
  apply List.map_congr_left
  intro dir _
  by_cases here : dir.segmentId = segmentId
  · simp [here]
  · simp [here]

theorem ids_startSegment
    {m : IndexedWal} (above : ∀ id ∈ ids m.disk, id < m.counter)
    (now : UInt64) :
    ids (startSegment config m now).disk = ids m.disk ++ [m.counter] := by
  have aboveDirs : ∀ dir ∈ m.disk.dirs, dir.segmentId < m.counter := by
    intro dir member
    exact above dir.segmentId (List.mem_map_of_mem member)
  rw [ids, startSegment_dirs aboveDirs, List.map_append]
  rfl

section

variable {state : SessionState}

/-- Nothing in front of a commit but its target is added by it. -/
theorem Guarded.commit
    (guarded : Guarded state) {active : ActiveSegment}
    (opened : state.tracked.wal.active = some active)
    (active' : ActiveSegment)
    (name : active'.segment.segmentId = active.segment.segmentId)
    (next : active'.segment.stagingFrame = active.segment.stagingFrame + 1)
    (disk : ids active'.disk = ids active.disk)
    (root : active'.disk.root = active.disk.root)
    (versions : List (Option IndexSlots)) {held fresh : List (Nat × Nat)}
    (owed : Bool)
    (added : ∀ file ∈ held ++ fresh,
      file ∈ state.held ++ state.fresh ∨ file = target active) :
    Guarded ⟨⟨state.tracked.wal.setActive active', versions⟩, held, fresh,
      owed⟩ := by
  obtain ⟨active₀, opened₀, inside, behind⟩ := guarded.isOpen
  rw [opened, Option.some.injEq] at opened₀
  subst opened₀
  have sameDisk := active_disk opened
  have sameIds : ids active'.disk = ids state.tracked.wal.disk := by
    rw [disk, sameDisk]
  refine ⟨⟨active', rfl, ?_, ?_⟩, ?_, ?_, ?_⟩
  · change active'.segment.segmentId ∈ ids active'.disk
    rw [sameIds, name]
    exact inside
  · intro frame member
    rw [name] at member
    rw [next]
    rcases added _ member with old | new
    · exact Nat.lt_succ_of_lt (behind frame old)
    · have here : frame = active.segment.stagingFrame :=
        congrArg Prod.snd new
      omega
  · intro file member
    change file.1 ∈ ids active'.disk
    rw [sameIds]
    rcases added file member with old | new
    · exact guarded.located file old
    · rw [new]
      exact inside
  · intro id member
    change id ∈ ids active'.disk at member
    rw [sameIds] at member
    exact guarded.above id member
  · change active'.disk.root = true
    rw [root, sameDisk]
    exact guarded.root

theorem guarded_startSegment
    {m : IndexedWal} (above : ∀ id ∈ ids m.disk, id < m.counter)
    {held fresh : List (Nat × Nat)}
    (located : ∀ file ∈ held ++ fresh, file.1 ∈ ids m.disk)
    (now : UInt64) (versions : List (Option IndexSlots)) (owed : Bool) :
    Guarded ⟨⟨startSegment config m now, versions⟩, held, fresh, owed⟩ := by
  have dirs : ids (startSegment config m now).disk =
      ids m.disk ++ [m.counter] := ids_startSegment above now
  refine ⟨⟨_, rfl, ?_, ?_⟩, ?_, ?_, rfl⟩
  · change m.counter ∈ ids (startSegment config m now).disk
    rw [dirs]
    simp
  · intro frame member
    have old := located _ member
    have less := above _ old
    exact absurd less (Nat.lt_irrefl m.counter)
  · intro file member
    change file.1 ∈ ids (startSegment config m now).disk
    rw [dirs]
    exact List.mem_append_left _ (located file member)
  · intro id member
    change id ∈ ids (startSegment config m now).disk at member
    change id < m.counter + 1
    rw [dirs] at member
    rcases List.mem_append.mp member with old | new
    · exact Nat.lt_succ_of_lt (above id old)
    · rw [List.mem_singleton] at new
      omega

theorem ids_crashImage
    (wal : IndexedWal) (version : Option IndexSlots)
    (created : Option UInt64) :
    ∀ id ∈ ids wal.disk, id ∈ ids (crashImage wal version created) := by
  intro id member
  simp only [ids, crashImage, List.map_append]
  exact List.mem_append_left _ member

theorem scanExistingSegments_above_ids
    {disk : IndexedDisk} (root : disk.root = true) :
    ∀ id ∈ ids disk, id < scanExistingSegments (new disk) := by
  intro id member
  have bound := (HighWater.le_foldl_max (ids disk) 0).2 id member
  simp only [scanExistingSegments, new, root, if_true]
  exact Nat.lt_succ_of_le bound

/-- A restart goes on behind the acknowledged frames that the index covers, or
in a new segment. -/
theorem Guarded.restart
    (guarded : Guarded state) {version : Option IndexSlots}
    (covers : Covers state version) {created : Option UInt64} {now : UInt64}
    {wal : IndexedWal}
    (opens : initializeWal config
      (new (crashImage state.tracked.wal version created)) now = .ok wal) :
    Guarded ⟨⟨wal, [wal.disk.index]⟩, state.held, [], false⟩ := by
  have root : (crashImage state.tracked.wal version created).root = true :=
    guarded.root
  have above := scanExistingSegments_above_ids root
  have located : ∀ file ∈ state.held ++ [],
      file.1 ∈ ids (crashImage state.tracked.wal version created) := by
    intro file member
    rw [List.append_nil] at member
    exact ids_crashImage _ _ _ _
      (guarded.located file (List.mem_append_left _ member))
  cases resumed : resumeSegment
      { new (crashImage state.tracked.wal version created) with
        counter := scanExistingSegments
          (new (crashImage state.tracked.wal version created)) } with
  | none =>
      simp only [initializeWal, resumed] at opens
      cases opens
      exact guarded_startSegment above located now _ false
  | some wal' =>
      simp only [initializeWal, resumed, Except.ok.injEq] at opens
      subst opens
      obtain ⟨slots, header, dir, index, latest, found, rfl⟩ :=
        exists_of_resumeSegment resumed
      have read : version.bind IndexSlots.readLatest = some header := by
        have index : version = some slots := index
        rw [index]
        exact latest
      have dirMember := List.mem_of_find?_eq_some found
      have here := List.find?_some found
      simp only [decide_eq_true_eq] at here
      refine ⟨⟨_, rfl, ?_, ?_⟩, located, above, root⟩
      · change header.segmentId ∈ ids _
        rw [← here]
        exact List.mem_map_of_mem dirMember
      · intro frame member
        rw [List.append_nil] at member
        have covered := covers header read frame member
        change frame < max (header.committedFrame + 1) 1
        omega

end

/-- Every allowed step keeps the frames that matter in front of the next
one. -/
theorem SessionStep.guarded
    {state state' : SessionState} {action : SessionAction}
    (step : SessionStep config state action state')
    (allowed : Allowed state action) (guarded : Guarded state) :
    Guarded state' := by
  cases step with
  | stage entry opened capacity =>
      obtain ⟨active₀, opened₀, inside, behind⟩ := guarded.isOpen
      rw [opened, Option.some.injEq] at opened₀
      subst opened₀
      have sameDisk := active_disk opened
      refine ⟨⟨_, rfl, ?_, behind⟩, ?_, ?_, ?_⟩
      · rw [← sameDisk] at inside
        exact inside
      · have located := guarded.located
        rw [← sameDisk] at located
        exact located
      · have above := guarded.above
        rw [← sameDisk] at above
        exact above
      · have root := guarded.root
        rw [← sameDisk] at root
        exact root
  | @flush active opened filled capacity =>
      refine guarded.commit opened (flushed config active) rfl rfl
        (ids_putFrameFile _ _ _ _) rfl _ false ?_
      intro file member
      cases owed : state.owed with
      | true =>
          simp only [owed, if_true, List.mem_append, List.mem_singleton]
            at member ⊢
          tauto
      | false =>
          simp only [owed, Bool.false_eq_true, if_false, List.mem_append,
            List.mem_singleton] at member ⊢
          tauto
  | @oversize active entry opened empty capacity =>
      refine guarded.commit opened
        (commitFrame config active (encodeEntry entry) 1) rfl rfl
        (ids_putFrameFile _ _ _ _) rfl _ state.owed ?_
      intro file member
      simp only [List.mem_append, List.mem_singleton] at member ⊢
      tauto
  | @rotate active now opened empty =>
      exact guarded_startSegment
        (m := sealSegment state.tracked.wal active.segment.segmentId)
        guarded.above guarded.located now _ state.owed
  | returned opened =>
      obtain ⟨active₀, opened₀, inside, behind⟩ := guarded.isOpen
      refine ⟨⟨active₀, opened₀, inside, ?_⟩, ?_, guarded.above,
        guarded.root⟩
      · intro frame member
        rw [List.append_nil] at member
        exact behind frame member
      · intro file member
        rw [List.append_nil] at member
        exact guarded.located file member
  | restart created now survived opens =>
      exact guarded.restart allowed opens

theorem firstSession_guarded (config : WalConfig) (now : UInt64) :
    Guarded (firstSession config now) :=
  guarded_startSegment (m := new noDisk) (by simp [ids, new, noDisk])
    (by simp) now _ false

theorem Guarded.not_overwrites
    {state : SessionState} (guarded : Guarded state)
    (action : SessionAction) : ¬ Overwrites state action := by
  rintro ⟨active, opened, holds, -⟩
  obtain ⟨active₀, opened₀, -, behind⟩ := guarded.isOpen
  rw [opened, Option.some.injEq] at opened₀
  subst opened₀
  have less := behind active.segment.stagingFrame
    (List.mem_append_left _ holds)
  omega

/-- In every run of sessions whose crashes leave an index that covers the
acknowledged frames of its segment, no write targets a frame file that holds
acknowledged entries. -/
theorem sessions_overwrite_nothing
    (config : WalConfig) (start : UInt64) (state : SessionState)
    (run : Reaches (SessionStep config) Allowed (firstSession config start)
      state) (action : SessionAction) : ¬ Overwrites state action := by
  have guarded := run.invariant Guarded (firstSession_guarded config start)
    (fun before action after guarded allowed step =>
      step.guarded allowed guarded)
  exact guarded.not_overwrites action

/-- One put, then a restart with the index of its commit. -/
theorem covered_restart_overwrites_nothing :
    ∃ state, state.held = [(0, 1)] ∧ state.fresh = [] ∧
      Reaches (SessionStep WalHandle.smallConfig) Allowed
        (firstSession WalHandle.smallConfig 1) state ∧
      ∀ action, ¬ Overwrites state action := by
  have staged : Reaches (SessionStep WalHandle.smallConfig) Allowed
      (firstSession WalHandle.smallConfig 1) _ :=
    (Reaches.start _).next (.stage (.put "k" (.bool true) 2)) trivial
      (.stage _ rfl rfl)
  have committed := staged.next .flush trivial
    (.flush rfl (fun empty => absurd (congrArg List.length empty)
      (by decide)) rfl)
  have returned := committed.next .returned trivial (.returned rfl)
  have restarted := returned.next (.restart _ none 3) (by
      intro header read frame member
      have committedFrame : header.committedFrame = 1 := by
        cases read
        rfl
      have here := List.mem_singleton.mp member
      have frameOne : frame = 1 := congrArg Prod.snd here
      rw [committedFrame, frameOne])
    (.restart none 3 (List.Mem.tail _ (List.Mem.head _)) rfl)
  exact ⟨_, rfl, rfl, restarted, sessions_overwrite_nothing
    WalHandle.smallConfig 1 _ restarted⟩

/-- One put, then a restart with the index of the rotation, which names no
frame: the next put goes to the frame file of the first one. -/
theorem stale_index_overwrites_frame :
    ∃ state state', state.held = [(0, 1)] ∧
      Reaches (SessionStep WalHandle.smallConfig) (fun _ _ => True)
        (firstSession WalHandle.smallConfig 1) state ∧
      SessionStep WalHandle.smallConfig state .flush state' ∧
      Overwrites state .flush := by
  have staged : Reaches (SessionStep WalHandle.smallConfig) (fun _ _ => True)
      (firstSession WalHandle.smallConfig 1) _ :=
    (Reaches.start _).next (.stage (.put "k" (.bool true) 2)) trivial
      (.stage _ rfl rfl)
  have committed := staged.next .flush trivial
    (.flush rfl (fun empty => absurd (congrArg List.length empty)
      (by decide)) rfl)
  have returned := committed.next .returned trivial (.returned rfl)
  have restarted := returned.next (.restart _ none 3) trivial
    (.restart none 3 (List.Mem.head _) rfl)
  have again := restarted.next (.stage (.put "l" (.bool true) 4)) trivial
    (.stage _ rfl rfl)
  exact ⟨_, _, rfl, again,
    .flush rfl (fun empty => absurd (congrArg List.length empty)
      (by decide)) rfl,
    _, rfl, List.Mem.head _, trivial⟩

end IndexedWal

end F4kvsLsm
