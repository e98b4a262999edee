import F4kvsLsm.Wal.GroupCommitSteps

/-!
# Group commit writes once, and in which order

A queue that is drained by several parties in batches: whatever the schedule,
no entry is written twice, and when nothing is queued or on its way each
enqueued entry is written.  The batches are written under another lock than
they are taken, so the order of the log is that of the queue only when every
batch is written before those taken after it.
-/

namespace F4kvsLsm

open ByteCodec FileWal

/-! ## The log manager as a queue -/

def Next.batches : Next → List (List PendingEntry)
  | .finished => []
  | .batch first entries => [directRecords first entries]
  | .sync _ => []

/-- The batches that a call has yet to write. -/
def Writer.batches (writer : Writer) : List (List PendingEntry) :=
  writer.records :: writer.next.batches

def queuedOf (list : List PendingEntry) : List PendingEntry :=
  list.filter PendingEntry.queued

theorem queuedOf_directRecords (first : Nat) (entries : List WALEntry) :
    queuedOf (directRecords first entries) = [] := by
  apply List.filter_eq_nil_iff.mpr
  intro record member
  rcases List.mem_mapIdx.mp member with ⟨index, inside, rfl⟩
  simp

@[simp]
theorem queuedOf_flatten_batches (next : Next) :
    queuedOf next.batches.flatten = [] := by
  cases next with
  | finished => rfl
  | batch first entries =>
      simpa [Next.batches] using queuedOf_directRecords first entries
  | sync => rfl

namespace CommitState

def pipeline (s : CommitState) : Pipeline PendingEntry where
  history := s.issued
  queue := s.queue
  taken := s.writers.flatMap Writer.batches
  written := s.files.log
  lost := s.files.dropped

theorem follow_pipeline (s : CommitState) (before after : List Writer)
    (next : Next) :
    (s.follow before after next).pipeline =
      { s.pipeline with
        taken := before.flatMap Writer.batches ++
          (next.batches ++ after.flatMap Writer.batches) } := by
  cases next with
  | finished => simp [follow, pipeline, Next.batches]
  | batch first entries =>
      simp [follow, pipeline, Next.batches, Writer.batches, Writer.records,
        Writer.next, Writer.stage, Stage.records, Stage.next]
  | sync ids => simp [follow, pipeline, Next.batches]

/-- The queue is taken, if it is looked at, before what the call brings. -/
theorem takeFirst_pipeline (config : CommitConfig) (s : CommitState)
    (next : Next) :
    (s.takeFirst config next).pipeline =
        { s.pipeline with taken := s.pipeline.taken ++ next.batches } ∨
      (s.takeFirst config next).pipeline =
        { s.pipeline with
          queue := []
          taken := s.pipeline.taken ++ [s.queue] ++ next.batches } := by
  have idle := follow_pipeline s s.writers [] next
  simp only [List.flatMap_nil, List.append_nil] at idle
  unfold takeFirst takePending
  split
  · split
    · exact Or.inl idle
    · right
      simp [pipeline, Writer.batches, Writer.records, Writer.next,
        Writer.stage, Stage.records, Stage.next]
  · exact Or.inl idle

end CommitState

/-- A call that appends its batch has the oldest one.  Entries that do not come
from the queue do not count. -/
def AppendsInTurn : CommitAction → Prop
  | .advance before (.turn (.append list _)) =>
      queuedOf list = [] ∨ ∀ writer ∈ before, queuedOf writer.records = []
  | _ => True

theorem queuedOf_flatMap_batches
    {writers : List Writer}
    (direct : ∀ writer ∈ writers, queuedOf writer.records = []) :
    queuedOf (writers.flatMap Writer.batches).flatten = [] := by
  induction writers with
  | nil => rfl
  | cons writer writers inductionHypothesis =>
      have first := direct writer (by simp)
      have rest := inductionHypothesis fun other member =>
        direct other (List.mem_cons_of_mem _ member)
      have brought := queuedOf_flatten_batches writer.next
      unfold queuedOf at *
      simp only [List.flatMap_cons, Writer.batches, List.cons_append,
        List.flatten_cons, List.flatten_append, List.filter_append, first,
        brought, rest, List.append_nil]

section

variable {config : CommitConfig} {base kept : Bytes} {s s' : CommitState}
variable {action : CommitAction}

theorem inTurn_of_appendsInTurn
    {before : List Writer} {writer : Writer} {now : UInt64}
    (turn : AppendsInTurn (.advance before writer))
    (writes : Writer.Writes s.files writer (writer.step config s.files now)) :
    queuedOf writer.records = [] ∨
      queuedOf (before.flatMap Writer.batches).flatten = [] := by
  have ends := writes.ends
  cases writer with
  | turn stage =>
      cases stage with
      | full list next =>
          simp only [Writer.step] at ends
          split at ends
          · cases ends
          · cases ends
      | overflow list next =>
          simp only [Writer.step] at ends
          split at ends
          · cases ends
          · cases ends
      | append list next =>
          rcases turn with direct | oldest
          · exact Or.inl direct
          · exact Or.inr (queuedOf_flatMap_batches oldest)
      | attempt id entry => exact Or.inl rfl
      | retry id entry => exact Or.inl rfl
  | rotate stage => cases ends
  | raise stage => cases ends

/-- Runs of the queue; `strict` ones write in turn. -/
abbrev QueueRun (strict : Prop) :
    Pipeline PendingEntry → Pipeline PendingEntry → Prop :=
  Transitions.Reaches Pipeline.Step fun _ action =>
    strict → Pipeline.InTurn PendingEntry.queued action

variable {strict : Prop}

theorem queueRun_takeFirst (s : CommitState) (next : Next)
    (bare : next.batches = []) :
    QueueRun strict s.pipeline (s.takeFirst config next).pipeline := by
  rcases s.takeFirst_pipeline config next with left_alone | taken
  · rw [left_alone, bare, List.append_nil]
    exact Transitions.Reaches.start _
  · rw [taken, bare, List.append_nil]
    exact (Transitions.Reaches.start _).next .take (fun _ => trivial)
      (Pipeline.Step.take s.pipeline)

theorem queueRun_batch (s : CommitState) (entries : List WALEntry) :
    QueueRun strict s.pipeline
      (s.batchWriteOperations config entries).pipeline := by
  let direct := directRecords s.issued.length entries
  let issued : CommitState := { s with issued := s.issued ++ direct }
  have allowed : strict →
      Pipeline.InTurn PendingEntry.queued (.bring direct) :=
    fun _ => queuedOf_directRecords s.issued.length entries
  rcases issued.takeFirst_pipeline config
      (.batch s.issued.length entries) with left_alone | taken
  · rw [CommitState.batchWriteOperations, left_alone]
    exact (Transitions.Reaches.start _).next (.bring direct) allowed
      (Pipeline.Step.bring s.pipeline direct)
  · rw [CommitState.batchWriteOperations, taken]
    have emptied : QueueRun strict s.pipeline
        { s.pipeline with
          queue := [], taken := s.pipeline.taken ++ [s.queue] } :=
      (Transitions.Reaches.start _).next .take (fun _ => trivial)
        (Pipeline.Step.take s.pipeline)
    exact emptied.next (.bring direct) allowed (Pipeline.Step.bring _ direct)

theorem queueRun_advance
    {before after : List Writer} {writer : Writer}
    (sound : LogFiles.Sound base kept s.files)
    (split : s.writers = before ++ writer :: after) (now : UInt64)
    (turn : strict → AppendsInTurn (.advance before writer)) :
    QueueRun strict s.pipeline
      (s.advance config before writer after now).pipeline := by
  have cases := Writer.step_cases config sound writer now
  have taken : s.pipeline.taken = before.flatMap Writer.batches ++
      writer.records ::
        (writer.next.batches ++ after.flatMap Writer.batches) := by
    simp [CommitState.pipeline, split, Writer.batches]
  rcases cases with goesOn | writes | drops
  · rcases goesOn.stays with ⟨writer', going, records, next⟩
    have unchanged : (s.advance config before writer after now).pipeline =
        s.pipeline := by
      rw [CommitState.advance_some going]
      simp [CommitState.pipeline, goesOn.log, goesOn.dropped, split,
        Writer.batches, records, next]
    rw [unchanged]
    exact Transitions.Reaches.start _
  · have allowed : strict → Pipeline.InTurn PendingEntry.queued
        (.write (before.flatMap Writer.batches) writer.records) :=
      fun holds => inTurn_of_appendsInTurn (turn holds) writes
    have written := Pipeline.Step.write s.pipeline
      (before.flatMap Writer.batches) writer.records _ taken
    rw [CommitState.advance_none writes.ends, CommitState.follow_pipeline]
    have state : ({ s with
        files := (writer.step config s.files now).1
        acked := s.acked ++ writer.records.map PendingEntry.id } :
          CommitState).pipeline =
        { s.pipeline with
          written := s.pipeline.written ++ writer.records } := by
      simp [CommitState.pipeline, writes.log, writes.dropped]
    rw [state]
    exact (Transitions.Reaches.start _).next _ allowed written
  · rcases drops.single with ⟨id, entry, rfl⟩
    have lost := Pipeline.Step.lose s.pipeline
      (before.flatMap Writer.batches) _ _ taken
    rw [CommitState.advance_none drops.ends, CommitState.follow_pipeline]
    have state : ({ s with
        files := ((Writer.turn (.retry id entry)).step config s.files now).1
        acked := s.acked ++
          (Writer.turn (.retry id entry)).records.map PendingEntry.id } :
          CommitState).pipeline =
        { s.pipeline with
          lost := s.pipeline.lost ++
            (Writer.turn (.retry id entry)).records } := by
      simp [CommitState.pipeline, drops.log, drops.dropped]
    rw [state]
    have allowed : strict → Pipeline.InTurn PendingEntry.queued
        (.lose (before.flatMap Writer.batches)
          (Writer.turn (.retry id entry)).records) :=
      fun _ => rfl
    exact (Transitions.Reaches.start _).next _ allowed lost

theorem CommitStep.simulates
    (step : CommitStep config s action s')
    (sound : LogFiles.Sound base kept s.files)
    (turn : strict → AppendsInTurn action) :
    QueueRun strict s.pipeline s'.pipeline := by
  cases step with
  | enqueue entry enabled =>
      let record : PendingEntry := ⟨s.issued.length, true, entry⟩
      exact (Transitions.Reaches.start _).next (.push record)
        (fun _ => trivial) (Pipeline.Step.push s.pipeline record)
  | flushPending enabled =>
      have taken : QueueRun strict s.pipeline
          (s.takeFirst config .finished).pipeline :=
        queueRun_takeFirst s .finished rfl
      simpa [CommitState.takeFirst, enabled] using taken
  | writeEntry entry disabled =>
      let batch : List PendingEntry := [⟨s.issued.length, false, entry⟩]
      have brought : (s.writeEntry entry).pipeline =
          { s.pipeline with
            history := s.pipeline.history ++ batch
            taken := s.pipeline.taken ++ [batch] } := by
        simp [CommitState.writeEntry, CommitState.pipeline, Writer.batches,
          Writer.records, Writer.next, Writer.stage, Stage.records,
          Stage.next, Next.batches, batch]
      rw [brought]
      exact (Transitions.Reaches.start _).next (.bring batch)
        (fun _ => rfl) (Pipeline.Step.bring s.pipeline batch)
  | batch entries some => exact queueRun_batch s entries
  | callFlush => exact Transitions.Reaches.start _
  | enterFlush before ids after split =>
      exact queueRun_takeFirst { s with calls := before ++ after }
        (.sync ids) rfl
  | advance before writer after now split =>
      exact queueRun_advance sound split now turn
  | finishFlush before ids after split =>
      have unchanged : ({ s with
          files := s.files.flushOpen config
          syncs := before ++ after } : CommitState).pipeline =
            s.pipeline := by
        simp [CommitState.pipeline]
      rw [unchanged]
      exact Transitions.Reaches.start _
  | backgroundSync async =>
      have unchanged : ({ s with
          files := s.files.syncOpen } : CommitState).pipeline =
            s.pipeline := by
        simp [CommitState.pipeline]
      rw [unchanged]
      exact Transitions.Reaches.start _

/-! ## Runs -/

/-- What every step of the log manager keeps. -/
structure CommitState.Invariant
    (base kept : Bytes) (s : CommitState) : Prop where
  sound : LogFiles.Sound base kept s.files
  numbered : Numbered s.issued
  accounted : s.pipeline.Accounted
  dropped : queuedOf s.files.dropped = []

theorem CommitStep.dropped
    (step : CommitStep config s action s')
    (sound : LogFiles.Sound base kept s.files)
    (direct : queuedOf s.files.dropped = []) :
    queuedOf s'.files.dropped = [] := by
  cases step with
  | enqueue => exact direct
  | flushPending => simpa using direct
  | writeEntry => exact direct
  | batch => simpa [CommitState.batchWriteOperations] using direct
  | callFlush => exact direct
  | enterFlush => simpa using direct
  | advance before writer after now split =>
      rw [CommitState.advance_files]
      rcases Writer.step_cases config sound writer now with
        goesOn | writes | drops
      · rw [goesOn.dropped]
        exact direct
      · rw [writes.dropped]
        exact direct
      · rcases drops.single with ⟨id, entry, rfl⟩
        rw [drops.dropped, queuedOf, List.filter_append]
        unfold queuedOf at direct
        rw [direct]
        rfl
  | finishFlush => simpa using direct
  | backgroundSync => simpa using direct

theorem CommitStep.keeps
    (step : CommitStep config s action s')
    (invariant : s.Invariant base kept) : s'.Invariant base kept := by
  have run : QueueRun False s.pipeline s'.pipeline :=
    step.simulates invariant.sound False.elim
  constructor
  · exact step.sound invariant.sound
  · exact step.numbered invariant.numbered
  · exact Pipeline.accounted_of_reaches run invariant.accounted
  · exact step.dropped invariant.sound invariant.dropped

theorem CommitState.Invariant.start
    {files : LogFiles} (sound : LogFiles.Sound base kept files)
    (log : files.log = []) (dropped : files.dropped = []) :
    (CommitState.opened files).Invariant base kept := by
  constructor
  · exact sound
  · rfl
  · simp [Pipeline.Accounted, CommitState.pipeline, CommitState.opened, log,
      dropped]
  · simp [CommitState.opened, dropped, queuedOf]

theorem CommitState.Invariant.run
    {allowed : CommitState → CommitAction → Prop}
    (invariant : s.Invariant base kept)
    (run : Transitions.Reaches (CommitStep config) allowed s s') :
    s'.Invariant base kept :=
  run.invariant (fun s => s.Invariant base kept) invariant
    fun _ _ _ holds _ step => step.keeps holds

theorem CommitState.Invariant.log_nodup
    (invariant : s.Invariant base kept) :
    (s.files.log.map PendingEntry.id).Nodup := by
  have accounted := invariant.accounted.map PendingEntry.id
  have all := accounted.nodup_iff.mpr invariant.numbered.nodup
  simp only [List.map_append, List.append_assoc] at all
  exact (List.nodup_append.mp all).1

theorem CommitState.Invariant.log_subset
    (invariant : s.Invariant base kept) :
    ∀ record ∈ s.files.log, record ∈ s.issued := by
  intro record member
  apply invariant.accounted.subset
  simp [CommitState.pipeline, member]

/-- With an empty queue and nothing on its way, every enqueued entry is
written. -/
theorem CommitState.Invariant.log_complete
    (invariant : s.Invariant base kept)
    (empty : s.queue = []) (idle : s.writers = []) :
    (queuedOf s.files.log).Perm (queuedOf s.issued) := by
  have taken : s.pipeline.taken = [] := by
    simp [CommitState.pipeline, idle]
  exact invariant.accounted.written_perm PendingEntry.queued taken empty
    invariant.dropped

/-- The entries of the queue stand in the log in the order in which they were
enqueued. -/
def CommitState.InEnqueueOrder (s : CommitState) : Prop :=
  (queuedOf s.files.log).Sublist (queuedOf s.issued)

/-- When the oldest batch is always appended first, the log holds a beginning
of what was enqueued. -/
theorem log_prefix_of_appendsInTurn
    (invariant : s.Invariant base kept)
    (order : s.pipeline.InOrder PendingEntry.queued)
    (run : Transitions.Reaches (CommitStep config)
      (fun _ action => AppendsInTurn action) s s') :
    queuedOf s'.files.log <+: queuedOf s'.issued := by
  have both := run.invariant
    (fun s => s.Invariant base kept ∧
      s.pipeline.InOrder PendingEntry.queued)
    ⟨invariant, order⟩
    (fun _ _ _ holds turn step => by
      have queueRun : QueueRun True _ _ :=
        step.simulates holds.1.sound fun _ => turn
      constructor
      · exact step.keeps holds.1
      · exact Pipeline.inOrder_of_reaches
          (queueRun.mono fun _ _ allowed => allowed trivial) holds.2)
  exact both.2.begins

/-! ## Calls that are left alone -/

/-- Runs of the log manager; `strict` ones append in turn. -/
abbrev TurnRun (strict : Prop) (config : CommitConfig) :
    CommitState → CommitState → Prop :=
  Transitions.Reaches (CommitStep config) fun _ action =>
    strict → AppendsInTurn action

variable {before after : List Writer}

/-- `s'` is `s` with the call between `before` and `after` at `writer`, and
with the same log. -/
structure StandsAt (s : CommitState) (before : List Writer) (writer : Writer)
    (after : List Writer) (s' : CommitState) : Prop where
  writers : s'.writers = before ++ writer :: after
  log : s'.files.log = s.files.log
  queue : s'.queue = s.queue
  issued : s'.issued = s.issued

theorem turnRun_goesOn
    {middle : CommitState} {writer writer' : Writer}
    (run : TurnRun strict config s middle)
    (stands : StandsAt s before writer after middle) (now : UInt64)
    (turn : AppendsInTurn (.advance before writer))
    (stays : (writer.step config middle.files now).2 = some writer')
    (log : (writer.step config middle.files now).1.log =
      middle.files.log) :
    ∃ s', TurnRun strict config s s' ∧
      StandsAt s before writer' after s' := by
  refine ⟨middle.advance config before writer after now, ?_, ?_⟩
  · exact run.next _ (fun _ => turn)
      (CommitStep.advance middle before writer after now stands.writers)
  · rw [CommitState.advance_some stays]
    exact ⟨rfl, log.trans stands.log, stands.queue, stands.issued⟩

/-- A rotation ends where it was asked for. -/
theorem turnRun_rotates
    {middle : CommitState} {stage : Stage}
    (run : TurnRun strict config s middle)
    (stands : StandsAt s before (.rotate stage) after middle) :
    ∃ s', TurnRun strict config s s' ∧
      StandsAt s before (.turn stage) after s' := by
  rcases turnRun_goesOn run stands 0 trivial rfl
    (LogFiles.install_log config middle.files 0) with
    ⟨raised, run, stands⟩
  exact turnRun_goesOn run stands 0 trivial rfl rfl

/-- A call that is left alone gets to the point where it appends. -/
theorem turnRun_reaches_append
    {list : List PendingEntry} {next : Next}
    (split : s.writers = before ++ .turn (.full list next) :: after) :
    ∃ s', TurnRun strict config s s' ∧
      StandsAt s before (.turn (.append list next)) after s' := by
  have overflow : ∃ s', TurnRun strict config s s' ∧
      StandsAt s before (.turn (.overflow list next)) after s' := by
    have run : TurnRun strict config s s := Transitions.Reaches.start s
    have stands : StandsAt s before (.turn (.full list next)) after s :=
      ⟨split, rfl, rfl, rfl⟩
    by_cases full : s.files.openLen ≥ config.segmentSize
    · rcases turnRun_goesOn run stands 0 trivial
        (by simp only [Writer.step, if_pos full]; rfl)
        (by simp only [Writer.step, if_pos full]) with
        ⟨rotating, run, stands⟩
      exact turnRun_rotates run stands
    · exact turnRun_goesOn run stands 0 trivial
        (by simp only [Writer.step, if_neg full])
        (by simp only [Writer.step, if_neg full])
  rcases overflow with ⟨middle, run, stands⟩
  by_cases overflows : middle.files.openLen + (dataToWrite list).length >
      config.segmentSize
  · rcases turnRun_goesOn run stands 0 trivial
      (by simp only [Writer.step, if_pos overflows]; rfl)
      (by simp only [Writer.step, if_pos overflows]) with
      ⟨rotating, run, stands⟩
    exact turnRun_rotates run stands
  · exact turnRun_goesOn run stands 0 trivial
      (by simp only [Writer.step, if_neg overflows])
      (by simp only [Writer.step, if_neg overflows])

/-- A call that is left alone writes its batch. -/
theorem turnRun_lands
    {list : List PendingEntry}
    (invariant : s.Invariant base kept)
    (split : s.writers = before ++ .turn (.full list .finished) :: after)
    (turn : strict →
      queuedOf list = [] ∨ ∀ writer ∈ before, queuedOf writer.records = []) :
    ∃ s', TurnRun strict config s s' ∧ s'.writers = before ++ after ∧
      s'.files.log = s.files.log ++ list ∧ s'.queue = s.queue ∧
      s'.issued = s.issued := by
  have reached : ∃ middle, TurnRun strict config s middle ∧
      StandsAt s before (.turn (.append list .finished)) after middle :=
    turnRun_reaches_append split
  rcases reached with ⟨middle, run, stands⟩
  have sound := (invariant.run run).sound
  have log := (LogFiles.append_log config sound list).1
  have ends : ((Writer.turn (.append list .finished)).step config
      middle.files 0).2 = none := rfl
  let appending : Writer := .turn (.append list .finished)
  refine ⟨middle.advance config before appending after 0, ?_, ?_⟩
  · exact run.next (.advance before appending) turn
      (CommitStep.advance middle before appending after 0 stands.writers)
  · rw [CommitState.advance_none ends]
    refine ⟨rfl, ?_, stands.queue, stands.issued⟩
    rw [CommitState.follow_files]
    exact log.trans (by rw [stands.log])

/-! ## Main results -/

variable {dir : List WalFile} {synced : Nat → Bytes}

/-- The log holds no entry twice, and with an empty queue and no call at work
it holds every enqueued one.  The entries stand in the order in which they
were enqueued in every run in which each batch is appended before those that
were taken after it. -/
theorem group_commit_once_and_in_turn
    (config : CommitConfig) (onDisk : OnDisk .segment dir)
    (part : LogFiles.SyncedPart synced dir) (now : UInt64) :
    let start := CommitState.opened (LogFiles.opened config dir synced now)
    (∀ s, CommitRun config start s →
      payload s.files.wal.dir = payload dir ++ dataToWrite s.files.log ∧
      (s.files.log.map PendingEntry.id).Nodup ∧
      (∀ record ∈ s.files.log, record ∈ s.issued) ∧
      (s.queue = [] → s.writers = [] →
        (queuedOf s.files.log).Perm (queuedOf s.issued))) ∧
    (∀ s, Transitions.Reaches (CommitStep config)
        (fun _ action => AppendsInTurn action) start s →
      s.InEnqueueOrder) := by
  intro start
  have sound := LogFiles.sound_opened config onDisk part now
  have invariant := CommitState.Invariant.start sound rfl rfl
  constructor
  · intro s run
    have holds := invariant.run run
    refine ⟨holds.sound.payload_eq, holds.log_nodup, ?_,
      holds.log_complete⟩
    exact holds.log_subset
  · intro s run
    have order : start.pipeline.InOrder PendingEntry.queued := rfl
    exact (log_prefix_of_appendsInTurn invariant order run).sublist

end

def LogFiles.empty (config : CommitConfig) : LogFiles :=
  opened config [] (fun _ => []) 0

def amortizedStart : CommitState :=
  .opened (LogFiles.empty (WalDurability.amortized.applyTo .defaults))

theorem syncedPart_nil (synced : Nat → Bytes) :
    LogFiles.SyncedPart synced [] :=
  fun _ member => absurd member List.not_mem_nil

theorem LogFiles.sound_empty (config : CommitConfig) :
    Sound [] [] (empty config) :=
  sound_opened config onDisk_nil (syncedPart_nil _) 0

theorem amortizedStart_invariant : amortizedStart.Invariant [] [] :=
  CommitState.Invariant.start (LogFiles.sound_empty _) rfl rfl

/-- Two entries are enqueued, and each is taken before the next one comes. -/
theorem two_batches_taken (strict : Prop) (first second : WALEntry) :
    ∃ s, TurnRun strict (WalDurability.amortized.applyTo .defaults)
        amortizedStart s ∧
      s.writers = [.turn (.full [⟨0, true, first⟩] .finished),
        .turn (.full [⟨1, true, second⟩] .finished)] ∧
      s.files.log = [] ∧ s.queue = [] ∧
      s.issued = [⟨0, true, first⟩, ⟨1, true, second⟩] := by
  let config := WalDurability.amortized.applyTo .defaults
  have run : TurnRun strict config amortizedStart amortizedStart :=
    Transitions.Reaches.start _
  have enqueued := run.next (.enqueue first) (fun _ => trivial)
    (CommitStep.enqueue amortizedStart first rfl)
  have taken := enqueued.next .flushPending (fun _ => trivial)
    (CommitStep.flushPending _ rfl)
  have enqueued' := taken.next (.enqueue second) (fun _ => trivial)
    (CommitStep.enqueue _ second rfl)
  have taken' := enqueued'.next .flushPending (fun _ => trivial)
    (CommitStep.flushPending _ rfl)
  exact ⟨_, taken', rfl, rfl, rfl, rfl⟩

/-- Both batches are appended in turn. -/
theorem two_batches_land_in_turn :
    ∃ s, Transitions.Reaches
        (CommitStep (WalDurability.amortized.applyTo .defaults))
        (fun _ action => AppendsInTurn action) amortizedStart s ∧
      s.InEnqueueOrder ∧
      entriesOf s.files.log =
        [.put "k" (.bool false) 0, .put "k" (.bool true) 0] := by
  rcases two_batches_taken True (.put "k" (.bool false) 0)
    (.put "k" (.bool true) 0) with ⟨s, run, writers, log, queue, issued⟩
  have invariant := amortizedStart_invariant.run run
  have split : s.writers = [] ++ _ :: _ := writers
  rcases turnRun_lands invariant split fun _ => Or.inr (by simp) with
    ⟨one, oneRun, oneWriters, oneLog, oneQueue, oneIssued⟩
  have split' : one.writers = [] ++ _ :: [] := oneWriters
  rcases turnRun_lands (invariant.run oneRun) split'
    fun _ => Or.inr (by simp) with
    ⟨both, bothRun, bothWriters, bothLog, bothQueue, bothIssued⟩
  have whole : Transitions.Reaches _ _ amortizedStart both :=
    (run.trans oneRun).trans bothRun
  refine ⟨both, whole.mono fun _ _ turn => turn trivial, ?_, ?_⟩
  · exact (group_commit_once_and_in_turn _ onDisk_nil
      (syncedPart_nil _) 0).2 both
        (whole.mono fun _ _ turn => turn trivial)
  · rw [bothLog, oneLog, log]
    rfl

/-- The second batch overtakes the first: the log ends with the value that was
overwritten. -/
theorem later_batch_overtakes :
    ∃ s, CommitRun (WalDurability.amortized.applyTo .defaults)
        amortizedStart s ∧ s.queue = [] ∧ s.writers = [] ∧
      entriesOf s.files.log =
        [.put "k" (.bool true) 0, .put "k" (.bool false) 0] ∧
      ¬ s.InEnqueueOrder := by
  rcases two_batches_taken False (.put "k" (.bool false) 0)
    (.put "k" (.bool true) 0) with ⟨s, run, writers, log, queue, issued⟩
  have invariant := amortizedStart_invariant.run run
  have split : s.writers = [_] ++ _ :: [] := writers
  rcases turnRun_lands invariant split False.elim with
    ⟨one, oneRun, oneWriters, oneLog, oneQueue, oneIssued⟩
  have split' : one.writers = [] ++ _ :: [] := oneWriters
  rcases turnRun_lands (invariant.run oneRun) split' False.elim with
    ⟨both, bothRun, bothWriters, bothLog, bothQueue, bothIssued⟩
  have whole : Transitions.Reaches _ _ amortizedStart both :=
    (run.trans oneRun).trans bothRun
  have log : both.files.log = [⟨1, true, .put "k" (.bool true) 0⟩,
      ⟨0, true, .put "k" (.bool false) 0⟩] := by
    rw [bothLog, oneLog, log]
    rfl
  refine ⟨both, whole.mono fun _ _ _ => trivial, ?_, bothWriters, ?_, ?_⟩
  · rw [bothQueue, oneQueue, queue]
  · rw [log]
    rfl
  · intro order
    rw [CommitState.InEnqueueOrder, log, bothIssued, oneIssued, issued]
      at order
    have swapped : [1, 0].Sublist [0, 1] := order.map PendingEntry.id
    exact absurd swapped (by decide)

end F4kvsLsm
