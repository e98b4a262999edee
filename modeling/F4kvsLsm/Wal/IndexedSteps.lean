import F4kvsLsm.Wal.IndexedWrites

/-!
# What the calls of the indexed log manager are made of

Every call stages entries, commits frames and starts segments.  Entries are
only staged while a frame is free, so what is staged can always be committed,
and no call fails.  Nothing is assumed here about the entries, their sizes or
the configuration.
-/

namespace F4kvsLsm

open ByteCodec

namespace IndexedWal

open IndexedWalSegment

/-- The manager with the contents of `wal.idx` since it was last synced. -/
structure Tracked where
  wal : IndexedWal
  versions : List (Option IndexSlots)

/-- The staging buffer goes to the next frame. -/
def flushed (config : WalConfig) (active : ActiveSegment) : ActiveSegment :=
  clearStaging (commitFrame config active active.segment.staging
    active.segment.entriesInStaging)

/-- One step of a call with the entries it takes over.  Only a rotation syncs
the index. -/
inductive WalStep (config : WalConfig) :
    Tracked → List WALEntry → Tracked → Prop where
  | stage {wal : IndexedWal} {versions : List (Option IndexSlots)}
      {active : ActiveSegment} (entry : WALEntry)
      (opened : wal.active = some active)
      (capacity : hasFrameCapacity config active.segment = true) :
      WalStep config ⟨wal, versions⟩ [entry]
        ⟨wal.setActive (stage active (encodeEntry entry)), versions⟩
  | flush {wal : IndexedWal} {versions : List (Option IndexSlots)}
      {active : ActiveSegment} (opened : wal.active = some active)
      (filled : active.segment.staging ≠ [])
      (capacity : hasFrameCapacity config active.segment = true) :
      WalStep config ⟨wal, versions⟩ []
        ⟨wal.setActive (flushed config active),
          versions ++ [(flushed config active).disk.index]⟩
  | oversize {wal : IndexedWal} {versions : List (Option IndexSlots)}
      {active : ActiveSegment} (entry : WALEntry)
      (opened : wal.active = some active)
      (empty : active.segment.staging = [])
      (capacity : hasFrameCapacity config active.segment = true) :
      WalStep config ⟨wal, versions⟩ [entry]
        ⟨wal.setActive (commitFrame config active (encodeEntry entry) 1),
          versions ++
            [(commitFrame config active (encodeEntry entry) 1).disk.index]⟩
  | rotate {wal : IndexedWal} {versions : List (Option IndexSlots)}
      {active : ActiveSegment} (now : UInt64)
      (opened : wal.active = some active)
      (empty : active.segment.staging = []) :
      WalStep config ⟨wal, versions⟩ []
        ⟨startSegment config (sealSegment wal active.segment.segmentId) now,
          [(startSegment config
            (sealSegment wal active.segment.segmentId) now).disk.index]⟩

/-- Steps one after the other with all the entries they take over. -/
inductive WalSteps (config : WalConfig) :
    Tracked → List WALEntry → Tracked → Prop where
  | refl (state : Tracked) : WalSteps config state [] state
  | tail {state middle last : Tracked} {early late : List WALEntry}
      (steps : WalSteps config state early middle)
      (step : WalStep config middle late last) :
      WalSteps config state (early ++ late) last

variable {config : WalConfig}

theorem WalSteps.single
    {state state' : Tracked} {taken : List WALEntry}
    (step : WalStep config state taken state') :
    WalSteps config state taken state' :=
  .tail (.refl state) step

theorem WalSteps.trans
    {first second third : Tracked} {early late : List WALEntry}
    (one : WalSteps config first early second)
    (two : WalSteps config second late third) :
    WalSteps config first (early ++ late) third := by
  induction two with
  | refl => simpa using one
  | tail steps step inductionHypothesis =>
      rw [← List.append_assoc]
      exact .tail inductionHypothesis step

/-- What is kept by every step is kept by every run. -/
theorem WalSteps.keeps
    {state state' : Tracked} {taken : List WALEntry}
    (steps : WalSteps config state taken state')
    (holds : Tracked → List WALEntry → Prop)
    (keeps : ∀ before taken late after, holds before taken →
      WalStep config before late after → holds after (taken ++ late))
    {start : List WALEntry} (initially : holds state start) :
    holds state' (start ++ taken) := by
  induction steps with
  | refl => simpa using initially
  | tail steps step inductionHypothesis =>
      rw [← List.append_assoc]
      exact keeps _ _ _ _ inductionHypothesis step

/-- What is staged has a frame to go to. -/
def Backed (config : WalConfig) (active : ActiveSegment) : Prop :=
  active.segment.staging ≠ [] →
    hasFrameCapacity config active.segment = true

/-- Between two calls nothing is staged in Fsync mode. -/
def Between (config : WalConfig) (active : ActiveSegment) : Prop :=
  active.segment.staging ≠ [] →
    hasFrameCapacity config active.segment = true ∧
      config.syncMode ≠ .fsync

/-- An open manager between two calls. -/
def Open (config : WalConfig) (m : IndexedWal) : Prop :=
  ∃ active, m.active = some active ∧ Between config active

theorem Between.backed
    {active : ActiveSegment} (between : Between config active) :
    Backed config active :=
  fun filled => (between filled).1

theorem backed_of_empty
    {active : ActiveSegment} (empty : active.segment.staging = []) :
    Backed config active :=
  fun filled => absurd empty filled

theorem between_of_empty
    {active : ActiveSegment} (empty : active.segment.staging = []) :
    Between config active :=
  fun filled => absurd empty filled

/-! ## Operations on the open segment -/

section

variable {active : ActiveSegment} (m : IndexedWal)
variable (versions : List (Option IndexSlots))

theorem flushStaging_steps (backed : Backed config active) :
    ∃ active' versions',
      flushStaging config active = (active', true) ∧
      WalSteps config ⟨m.setActive active, versions⟩ []
        ⟨m.setActive active', versions'⟩ ∧
      active'.segment.staging = [] := by
  by_cases empty : active.segment.staging = []
  · refine ⟨active, versions, ?_, .refl _, empty⟩
    rw [flushStaging, if_pos (List.isEmpty_iff.mpr empty)]
  · refine ⟨flushed config active, _, ?_,
      .single (.flush (setActive_active m active) empty (backed empty)),
      rfl⟩
    rw [flushStaging, if_neg (fun clear => empty
      (List.isEmpty_iff.mp clear)), if_pos (backed empty)]
    rfl

theorem makeRoom_steps (backed : Backed config active) (encoded : Bytes) :
    ∃ active' versions',
      makeRoom config active encoded = (active', true) ∧
      WalSteps config ⟨m.setActive active, versions⟩ []
        ⟨m.setActive active', versions'⟩ ∧
      Backed config active' ∧
      (active.segment.staging = [] → active' = active) := by
  by_cases tight : ¬ active.segment.staging.isEmpty = true ∧
      active.segment.staging.length + encoded.length > frameSize config
  · obtain ⟨active', versions', flushed, steps, empty⟩ :=
      flushStaging_steps m versions backed
    refine ⟨active', versions', ?_, steps, backed_of_empty empty, ?_⟩
    · rw [makeRoom, if_pos tight, flushed]
    · intro clear
      exact absurd (List.isEmpty_iff.mpr clear) tight.1
  · refine ⟨active, versions, ?_, .refl _, backed, fun _ => rfl⟩
    rw [makeRoom, if_neg tight]

theorem stage_step
    (capacity : hasFrameCapacity config active.segment = true)
    (entry : WALEntry) :
    WalSteps config ⟨m.setActive active, versions⟩ [entry]
      ⟨m.setActive (stage active (encodeEntry entry)), versions⟩ :=
  .single (.stage entry (setActive_active m active) capacity)

theorem oversize_step
    (empty : active.segment.staging = [])
    (capacity : hasFrameCapacity config active.segment = true)
    (entry : WALEntry) :
    ∃ versions', WalSteps config ⟨m.setActive active, versions⟩ [entry]
      ⟨m.setActive (commitFrame config active (encodeEntry entry) 1),
        versions'⟩ :=
  ⟨_, .single (.oversize entry (setActive_active m active) empty capacity)⟩

/-- With an empty buffer the flush in front of an oversized entry does
nothing. -/
theorem flushStaging_empty (empty : active.segment.staging = []) :
    flushStaging config active = (active, true) := by
  rw [flushStaging, if_pos (List.isEmpty_iff.mpr empty)]

theorem eq_of_flushStaging_empty
    {active' : ActiveSegment} (empty : active.segment.staging = [])
    (flushed : flushStaging config active = (active', true)) :
    active = active' := by
  have same := (flushStaging_empty empty).symm.trans flushed
  rw [Prod.mk.injEq] at same
  exact same.1

theorem Backed.capacity
    (backed : Backed config active)
    (free : ¬ (active.segment.staging.isEmpty = true ∧
      ¬ hasFrameCapacity config active.segment = true)) :
    hasFrameCapacity config active.segment = true := by
  by_cases empty : active.segment.staging = []
  · by_contra absent
    exact free ⟨List.isEmpty_iff.mpr empty, absent⟩
  · exact backed empty

theorem appendEntry_steps
    (backed : Backed config active) (entry : WALEntry) :
    ∃ active' versions' accepted,
      appendEntry config active entry = (active', accepted) ∧
      WalSteps config ⟨m.setActive active, versions⟩
        (if accepted then [entry] else [])
        ⟨m.setActive active', versions'⟩ ∧
      Between config active' ∧
      (accepted = false → active'.segment.staging = []) ∧
      (active.segment.staging = [] →
        hasFrameCapacity config active.segment = true → accepted = true) := by
  by_cases oversized : (encodeEntry entry).length > frameSize config
  · obtain ⟨active₁, versions₁, flushed, steps, empty⟩ :=
      flushStaging_steps m versions backed
    by_cases capacity : hasFrameCapacity config active₁.segment = true
    · obtain ⟨versions₂, last⟩ :=
        oversize_step m versions₁ empty capacity entry
      refine ⟨_, versions₂, true, ?_, steps.trans last,
        between_of_empty empty, by simp, fun _ _ => rfl⟩
      simp only [appendEntry, if_pos oversized, flushed, if_pos capacity]
    · refine ⟨active₁, versions₁, false, ?_, steps, between_of_empty empty,
        fun _ => empty, ?_⟩
      · simp only [appendEntry, if_pos oversized, flushed, if_neg capacity]
      · intro clear available
        rw [eq_of_flushStaging_empty clear flushed] at available
        exact absurd available capacity
  · obtain ⟨active₁, versions₁, room, steps, backed₁, unchanged⟩ :=
      makeRoom_steps m versions backed (encodeEntry entry)
    by_cases full : active₁.segment.staging.isEmpty = true ∧
        ¬ hasFrameCapacity config active₁.segment = true
    · have empty := List.isEmpty_iff.mp full.1
      refine ⟨active₁, versions₁, false, ?_, steps, between_of_empty empty,
        fun _ => empty, ?_⟩
      · simp only [appendEntry, if_neg oversized, room, if_pos full]
      · intro clear available
        rw [← unchanged clear] at available
        exact absurd available full.2
    · have capacity := backed₁.capacity full
      have staged := stage_step m versions₁ capacity entry
      have backed₂ : Backed config (stage active₁ (encodeEntry entry)) :=
        fun _ => capacity
      obtain ⟨active₃, versions₃, flushed, commits, empty⟩ :=
        flushStaging_steps m versions₁ backed₂
      have through := (steps.trans staged).trans commits
      rw [List.append_nil] at through
      by_cases exactFit : active₁.segment.staging.isEmpty = true ∧
          (encodeEntry entry).length = frameSize config
      · refine ⟨active₃, versions₃, true, ?_, through,
          between_of_empty empty, by simp, fun _ _ => rfl⟩
        simp only [appendEntry, if_neg oversized, room, if_neg full,
          if_pos exactFit, flushed]
      · by_cases synced : config.syncMode = .fsync ∨
            config.syncMode = .fsyncAsync
        · refine ⟨active₃, versions₃, true, ?_, through,
            between_of_empty empty, by simp, fun _ _ => rfl⟩
          simp only [appendEntry, if_neg oversized, room, if_neg full,
            if_neg exactFit, if_pos synced, flushed]
        · have unsynced : config.syncMode ≠ .fsync :=
            fun fsync => synced (Or.inl fsync)
          refine ⟨_, versions₁, true, ?_, steps.trans staged,
            fun _ => ⟨capacity, unsynced⟩, by simp, fun _ _ => rfl⟩
          simp only [appendEntry, if_neg oversized, room, if_neg full,
            if_neg exactFit, if_neg synced]

/-- The loop of a batch takes the entries it counts.  The induction is on the
entries; whatever an iteration leaves staged still has its frame. -/
theorem appendEntriesLoop_steps
    (backed : Backed config active) (entries : List WALEntry) :
    ∃ active' versions' written all,
      appendEntriesLoop config active entries = (active', written, all) ∧
      WalSteps config ⟨m.setActive active, versions⟩ (entries.take written)
        ⟨m.setActive active', versions'⟩ ∧
      Backed config active' ∧
      (all = false → active'.segment.staging = []) ∧
      (active.segment.staging = [] →
        hasFrameCapacity config active.segment = true → entries ≠ [] →
          written ≠ 0) := by
  induction entries generalizing active versions with
  | nil =>
      exact ⟨active, versions, 0, true, rfl, .refl _, backed, by simp,
        by simp⟩
  | cons entry entries inductionHypothesis =>
      by_cases oversized : (encodeEntry entry).length > frameSize config
      · obtain ⟨active₁, versions₁, flushed, steps, empty⟩ :=
          flushStaging_steps m versions backed
        by_cases capacity : hasFrameCapacity config active₁.segment = true
        · obtain ⟨versions₂, last⟩ :=
            oversize_step m versions₁ empty capacity entry
          have backed₂ : Backed config
              (commitFrame config active₁ (encodeEntry entry) 1) :=
            backed_of_empty empty
          obtain ⟨active', versions', written, all, looped, rest, backed',
              partly, -⟩ := inductionHypothesis versions₂ backed₂
          refine ⟨active', versions', written + 1, all, ?_,
            (steps.trans last).trans rest, backed', partly,
            fun _ _ _ => Nat.succ_ne_zero _⟩
          simp only [appendEntriesLoop, if_pos oversized, flushed,
            if_pos capacity, looped]
        · refine ⟨active₁, versions₁, 0, false, ?_, steps,
            backed_of_empty empty, fun _ => empty, ?_⟩
          · simp only [appendEntriesLoop, if_pos oversized, flushed,
              if_neg capacity]
          · intro clear available
            rw [eq_of_flushStaging_empty clear flushed] at available
            exact absurd available capacity
      · obtain ⟨active₁, versions₁, room, steps, backed₁, unchanged⟩ :=
          makeRoom_steps m versions backed (encodeEntry entry)
        by_cases full : active₁.segment.staging.isEmpty = true ∧
            ¬ hasFrameCapacity config active₁.segment = true
        · have empty := List.isEmpty_iff.mp full.1
          refine ⟨active₁, versions₁, 0, false, ?_, steps, backed₁,
            fun _ => empty, ?_⟩
          · simp only [appendEntriesLoop, if_neg oversized, room,
              if_pos full]
          · intro clear available
            rw [← unchanged clear] at available
            exact absurd available full.2
        · have capacity := backed₁.capacity full
          have staged := stage_step m versions₁ capacity entry
          have backed₂ : Backed config (stage active₁ (encodeEntry entry)) :=
            fun _ => capacity
          obtain ⟨active', versions', written, all, looped, rest, backed',
              partly, -⟩ := inductionHypothesis versions₁ backed₂
          refine ⟨active', versions', written + 1, all, ?_,
            (steps.trans staged).trans rest, backed', partly,
            fun _ _ _ => Nat.succ_ne_zero _⟩
          simp only [appendEntriesLoop, if_neg oversized, room,
            if_neg full, looped]

/-- `append_entries_batch` commits what it counts; its rollback of the count
is never needed. -/
theorem appendEntriesBatch_steps
    (backed : Backed config active) (entries : List WALEntry) :
    ∃ active' versions' written,
      appendEntriesBatch config active entries = (active', written) ∧
      WalSteps config ⟨m.setActive active, versions⟩ (entries.take written)
        ⟨m.setActive active', versions'⟩ ∧
      active'.segment.staging = [] ∧
      (active.segment.staging = [] →
        hasFrameCapacity config active.segment = true → entries ≠ [] →
          written ≠ 0) := by
  obtain ⟨active₁, versions₁, written, all, looped, steps, backed₁, partly,
      progress⟩ := appendEntriesLoop_steps m versions backed entries
  cases all with
  | false =>
      exact ⟨active₁, versions₁, written,
        by simp only [appendEntriesBatch, looped], steps, partly rfl,
        progress⟩
  | true =>
      obtain ⟨active₂, versions₂, flushed, commits, empty⟩ :=
        flushStaging_steps m versions₁ backed₁
      have through := steps.trans commits
      rw [List.append_nil] at through
      exact ⟨active₂, versions₂, written,
        by simp only [appendEntriesBatch, looped, flushed], through, empty,
        progress⟩

end

/-! ## Calls of the manager -/

/-- Nothing is staged and a frame is free. -/
def Fresh (config : WalConfig) (m : IndexedWal) : Prop :=
  ∃ active, m.active = some active ∧ active.segment.staging = [] ∧
    hasFrameCapacity config active.segment = true

theorem startSegment_fresh (m : IndexedWal) (now : UInt64) :
    Fresh config (startSegment config m now) := by
  refine ⟨_, rfl, rfl, ?_⟩
  simp [hasFrameCapacity, dataFrameCount]

theorem Fresh.isOpen {m : IndexedWal} (fresh : Fresh config m) :
    Open config m := by
  obtain ⟨active, opened, empty, -⟩ := fresh
  exact ⟨active, opened, between_of_empty empty⟩

section

variable {m : IndexedWal}

theorem setActive_open
    {active : ActiveSegment} (between : Between config active) :
    Open config (m.setActive active) :=
  ⟨active, setActive_active m active, between⟩

/-- A rotation never finds staged entries that it cannot commit. -/
theorem rotateSegment_steps
    (isOpen : Open config m) (versions : List (Option IndexSlots))
    (now : UInt64) :
    ∃ m' versions', rotateSegment config m now = .ok m' ∧
      WalSteps config ⟨m, versions⟩ [] ⟨m', versions'⟩ ∧
      Fresh config m' := by
  obtain ⟨active, opened, between⟩ := isOpen
  obtain ⟨active', versions', flushed, steps, empty⟩ :=
    flushStaging_steps m versions between.backed
  rw [setActive_self opened] at steps
  refine ⟨_, _, ?_, steps.trans (.single (.rotate now
    (setActive_active m active') empty)), startSegment_fresh _ now⟩
  simp only [rotateSegment, opened, flushed]

/-- `write_entry` succeeds within its two attempts. -/
theorem writeEntry_steps
    (isOpen : Open config m) (versions : List (Option IndexSlots))
    (entry : WALEntry) (now : UInt64) :
    ∃ m' versions', writeEntry config m entry now = .ok m' ∧
      WalSteps config ⟨m, versions⟩ [entry] ⟨m', versions'⟩ ∧
      Open config m' := by
  obtain ⟨active, opened, between⟩ := isOpen
  obtain ⟨active₁, versions₁, accepted, appended, steps, backed₁, refused,
      -⟩ := appendEntry_steps m versions between.backed entry
  rw [setActive_self opened] at steps
  cases accepted with
  | true =>
      refine ⟨m.setActive active₁, versions₁, ?_, steps,
        setActive_open backed₁⟩
      simp only [writeEntry, opened, appended]
  | false =>
      obtain ⟨m₂, versions₂, rotated, turn, active₂, opened₂, empty₂,
          capacity₂⟩ :=
        rotateSegment_steps (setActive_open (m := m) backed₁) versions₁ now
      obtain ⟨active₃, versions₃, again, appendedAgain, more, backed₃, -,
          progress⟩ :=
        appendEntry_steps m₂ versions₂ (backed_of_empty empty₂) entry
      have taken := progress empty₂ capacity₂
      subst taken
      rw [setActive_self opened₂] at more
      refine ⟨m₂.setActive active₃, versions₃, ?_,
        (steps.trans turn).trans more, setActive_open backed₃⟩
      simp only [writeEntry, opened, appended, rotated, bind, Except.bind,
        opened₂, appendedAgain]

theorem batchPass_steps
    {active : ActiveSegment} (opened : m.active = some active)
    (backed : Backed config active)
    (versions : List (Option IndexSlots)) (entries : List WALEntry) :
    ∃ active' versions' written,
      appendEntriesBatch config active entries = (active', written) ∧
      WalSteps config ⟨m, versions⟩ (entries.take written)
        ⟨m.setActive active', versions'⟩ ∧
      Open config (m.setActive active') ∧
      (active.segment.staging = [] →
        hasFrameCapacity config active.segment = true → entries ≠ [] →
          written ≠ 0) := by
  obtain ⟨active', versions', written, appended, steps, empty, progress⟩ :=
    appendEntriesBatch_steps m versions backed entries
  rw [setActive_self opened] at steps
  exact ⟨active', versions', written, appended, steps,
    setActive_open (between_of_empty empty), progress⟩

/-- The batch loop from a fresh segment: every pass takes at least one
entry. -/
theorem batchLoop_fresh_steps
    (entries : List WALEntry) (emptyRotations : Nat)
    (fresh : Fresh config m) (versions : List (Option IndexSlots))
    (now : UInt64) :
    ∃ m' versions', batchLoop config m entries emptyRotations now = .ok m' ∧
      WalSteps config ⟨m, versions⟩ entries ⟨m', versions'⟩ ∧
      Open config m' := by
  induction bound : entries.length using Nat.strong_induction_on
    generalizing m entries emptyRotations versions with
  | _ bound' inductionHypothesis =>
      by_cases none : entries = []
      · subst none
        exact ⟨m, versions, batchLoop_nil m emptyRotations now, .refl _,
          fresh.isOpen⟩
      · obtain ⟨active, opened, empty, capacity⟩ := fresh
        obtain ⟨active', versions₁, written, appended, first, isOpen,
            progress⟩ :=
          batchPass_steps opened (backed_of_empty empty) versions entries
        have some := progress empty capacity none
        by_cases partly : written < entries.length
        · obtain ⟨m₁, versions₂, rotated, second, fresh₁⟩ :=
            rotateSegment_steps isOpen versions₁ now
          obtain ⟨m₂, versions₃, looped, third, isOpen₂⟩ :=
            inductionHypothesis (entries.drop written).length
              (by rw [List.length_drop]; omega) (entries.drop written) 0
              fresh₁ versions₂ rfl
          refine ⟨m₂, versions₃, ?_, ?_, isOpen₂⟩
          · rw [batchLoop_cons none opened appended, if_neg some,
              if_pos partly, rotated]
            exact looped
          · have whole := (first.trans second).trans third
            rw [List.append_nil, List.take_append_drop] at whole
            exact whole
        · refine ⟨m.setActive active', versions₁, ?_, ?_, isOpen⟩
          · rw [batchLoop_cons none opened appended, if_neg some,
              if_neg partly]
          · rw [List.take_of_length_le (Nat.le_of_not_lt partly)] at first
            exact first

/-- The batch loop succeeds; only its first pass can take nothing. -/
theorem batchLoop_steps
    (isOpen : Open config m) (versions : List (Option IndexSlots))
    (entries : List WALEntry) (now : UInt64) :
    ∃ m' versions', batchLoop config m entries 0 now = .ok m' ∧
      WalSteps config ⟨m, versions⟩ entries ⟨m', versions'⟩ ∧
      Open config m' := by
  by_cases nothing : entries = []
  · subst nothing
    exact ⟨m, versions, batchLoop_nil m 0 now, .refl _, isOpen⟩
  · obtain ⟨active, opened, between⟩ := isOpen
    obtain ⟨active', versions₁, written, appended, first, isOpen, -⟩ :=
      batchPass_steps opened between.backed versions entries
    obtain ⟨m₁, versions₂, rotated, second, fresh⟩ :=
      rotateSegment_steps isOpen versions₁ now
    have both := first.trans second
    rw [List.append_nil] at both
    by_cases none : written = 0
    · obtain ⟨m₂, versions₃, looped, third, isOpen₂⟩ :=
        batchLoop_fresh_steps entries 1 fresh versions₂ now
      refine ⟨m₂, versions₃, ?_, ?_, isOpen₂⟩
      · rw [batchLoop_cons nothing opened appended, if_pos none,
          if_neg (by omega), rotated]
        exact looped
      · have whole := both.trans third
        rw [none] at whole
        exact whole
    · by_cases partly : written < entries.length
      · obtain ⟨m₂, versions₃, looped, third, isOpen₂⟩ :=
          batchLoop_fresh_steps (entries.drop written) 0 fresh versions₂
            now
        refine ⟨m₂, versions₃, ?_, ?_, isOpen₂⟩
        · rw [batchLoop_cons nothing opened appended, if_neg none,
            if_pos partly, rotated]
          exact looped
        · have whole := both.trans third
          rw [List.take_append_drop] at whole
          exact whole
      · refine ⟨m.setActive active', versions₁, ?_, ?_, isOpen⟩
        · rw [batchLoop_cons nothing opened appended, if_neg none,
            if_neg partly]
        · rw [List.take_of_length_le (Nat.le_of_not_lt partly)] at first
          exact first

theorem flush_steps
    (isOpen : Open config m) (versions : List (Option IndexSlots)) :
    ∃ m' versions', flush config m = .ok m' ∧
      WalSteps config ⟨m, versions⟩ [] ⟨m', versions'⟩ ∧
      Open config m' := by
  obtain ⟨active, opened, between⟩ := isOpen
  obtain ⟨active', versions', flushed, steps, empty⟩ :=
    flushStaging_steps m versions between.backed
  rw [setActive_self opened] at steps
  refine ⟨m.setActive active', versions', ?_, steps,
    setActive_open (between_of_empty empty)⟩
  simp only [flush, opened, flushed]

end

/-! ## Runs of calls -/

/-- The calls that write to an open manager; `now` is the clock during the
call. -/
inductive IndexedCall where
  | writeEntry (entry : WALEntry) (now : UInt64)
  | batchWriteOperations (items : List (String × Value)) (now : UInt64)
  | flush

def IndexedCall.entries : IndexedCall → List WALEntry
  | .writeEntry entry _ => [entry]
  | .batchWriteOperations items now =>
      items.map fun item => .put item.1 item.2 now
  | .flush => []

def call (config : WalConfig) (m : IndexedWal) :
    IndexedCall → Except LsmError IndexedWal
  | .writeEntry entry now => writeEntry config m entry now
  | .batchWriteOperations items now =>
      batchWriteOperations config m items now
  | .flush => flush config m

/-- Every call succeeds and is made of steps that take over its entries. -/
theorem call_steps
    {m : IndexedWal} (isOpen : Open config m)
    (versions : List (Option IndexSlots)) (operation : IndexedCall) :
    ∃ m' versions', call config m operation = .ok m' ∧
      WalSteps config ⟨m, versions⟩ operation.entries ⟨m', versions'⟩ ∧
      Open config m' := by
  cases operation with
  | writeEntry entry now =>
      exact writeEntry_steps isOpen versions entry now
  | batchWriteOperations items now =>
      by_cases none : items.isEmpty
      · have nil : items = [] := List.isEmpty_iff.mp none
        subst nil
        exact ⟨m, versions, rfl, .refl _, isOpen⟩
      · obtain ⟨m', versions', looped, steps, isOpen'⟩ :=
          batchLoop_steps isOpen versions
            (items.map fun item => .put item.1 item.2 now) now
        refine ⟨m', versions', ?_, steps, isOpen'⟩
        simp only [call, batchWriteOperations, if_neg none, looped]
  | flush => exact flush_steps isOpen versions

/-- One call after the other, up to the first error. -/
def runCalls (config : WalConfig) (m : IndexedWal)
    (calls : List IndexedCall) : Except LsmError IndexedWal :=
  calls.foldlM (call config) m

theorem runCalls_steps
    {m : IndexedWal} (isOpen : Open config m)
    (versions : List (Option IndexSlots)) (calls : List IndexedCall) :
    ∃ m' versions', runCalls config m calls = .ok m' ∧
      WalSteps config ⟨m, versions⟩ (calls.flatMap IndexedCall.entries)
        ⟨m', versions'⟩ ∧
      Open config m' := by
  induction calls generalizing m versions with
  | nil => exact ⟨m, versions, rfl, .refl _, isOpen⟩
  | cons operation calls inductionHypothesis =>
      obtain ⟨m₁, versions₁, called, first, isOpen₁⟩ :=
        call_steps isOpen versions operation
      obtain ⟨m₂, versions₂, ran, rest, isOpen₂⟩ :=
        inductionHypothesis isOpen₁ versions₁
      refine ⟨m₂, versions₂, ?_, first.trans rest, isOpen₂⟩
      rw [runCalls, List.foldlM_cons, called]
      exact ran

end IndexedWal

end F4kvsLsm
