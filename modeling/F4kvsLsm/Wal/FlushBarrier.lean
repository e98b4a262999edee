import F4kvsLsm.Wal.GroupCommitOrder

/-!
# What a flush of the log makes durable

`flush_wal` takes what is queued, writes it, and syncs the open segment.  An
operation that was acknowledged before it may be in a batch that another call
has taken and not written yet, and only one of the sync modes syncs.
-/

namespace F4kvsLsm

open ByteCodec FileWal

namespace CommitState

/-- A call of `flush_wal` that has looked at the queue, and what had been
acknowledged when it was called. -/
def Waits (s : CommitState) (ids : List Nat) : Prop :=
  ids ∈ s.syncs ∨ ∃ writer ∈ s.writers, writer.next = .sync ids

/-- The record of an operation is on durable storage. -/
def Durable (s : CommitState) (id : Nat) : Prop :=
  ∃ record ∈ s.files.durable, record.id = id

/-- The record of an operation is in the log. -/
def Written (s : CommitState) (id : Nat) : Prop :=
  ∃ record ∈ s.files.log, record.id = id

/-- A call has the record of an operation and has not written it. -/
def InFlight (s : CommitState) (id : Nat) : Prop :=
  ∃ writer ∈ s.writers, ∃ batch ∈ writer.batches, ∃ record ∈ batch,
    record.id = id

/-- The record of an operation fitted no segment and was given up. -/
def Dropped (s : CommitState) (id : Nat) : Prop :=
  ∃ record ∈ s.files.dropped, record.id = id

/-! ## Frame lemmas -/

@[simp]
theorem follow_queue (s : CommitState) (before after : List Writer)
    (next : Next) : (s.follow before after next).queue = s.queue := by
  cases next with
  | finished => rfl
  | batch => rfl
  | sync => rfl

@[simp]
theorem follow_calls (s : CommitState) (before after : List Writer)
    (next : Next) : (s.follow before after next).calls = s.calls := by
  cases next with
  | finished => rfl
  | batch => rfl
  | sync => rfl

@[simp]
theorem follow_acked (s : CommitState) (before after : List Writer)
    (next : Next) : (s.follow before after next).acked = s.acked := by
  cases next with
  | finished => rfl
  | batch => rfl
  | sync => rfl

section

variable {s : CommitState} {before after : List Writer} {next : Next}
variable {ids : List Nat} {config : CommitConfig}

theorem waits_follow (waits : (s.follow before after next).Waits ids) :
    ids ∈ s.syncs ∨ (∃ writer ∈ before ++ after, writer.next = .sync ids) ∨
      next = .sync ids := by
  cases next with
  | finished =>
      rcases waits with syncing | writing
      · exact Or.inl syncing
      · exact Or.inr (Or.inl writing)
  | batch first entries =>
      rcases waits with syncing | ⟨writer, member, sync⟩
      · exact Or.inl syncing
      · right
        left
        simp only [follow, List.mem_append, List.mem_cons] at member
        rcases member with old | same | new
        · exact ⟨writer, List.mem_append_left _ old, sync⟩
        · rw [same] at sync
          cases sync
        · exact ⟨writer, List.mem_append_right _ new, sync⟩
  | sync others =>
      rcases waits with syncing | writing
      · rcases List.mem_append.mp syncing with old | new
        · exact Or.inl old
        · rw [List.mem_singleton.mp new]
          exact Or.inr (Or.inr rfl)
      · exact Or.inr (Or.inl writing)

theorem waits_takeFirst (waits : (s.takeFirst config next).Waits ids) :
    s.Waits ids ∨ next = .sync ids := by
  have idle : (s.follow s.writers [] next).Waits ids →
      s.Waits ids ∨ next = .sync ids := by
    intro waits
    rcases waits_follow waits with syncing | writing | last
    · exact Or.inl (Or.inl syncing)
    · rw [List.append_nil] at writing
      exact Or.inl (Or.inr writing)
    · exact Or.inr last
  unfold takeFirst takePending at waits
  split at waits
  · split at waits
    · exact idle waits
    · rcases waits with syncing | ⟨writer, member, sync⟩
      · exact Or.inl (Or.inl syncing)
      · rcases List.mem_append.mp member with old | new
        · exact Or.inl (Or.inr ⟨writer, old, sync⟩)
        · rw [List.mem_singleton.mp new] at sync
          exact Or.inr sync
  · exact idle waits

@[simp]
theorem takeFirst_calls :
    (s.takeFirst config next).calls = s.calls := by
  unfold takeFirst takePending
  split
  · split
    · exact follow_calls s s.writers [] next
    · rfl
  · exact follow_calls s s.writers [] next

@[simp]
theorem takeFirst_acked :
    (s.takeFirst config next).acked = s.acked := by
  unfold takeFirst takePending
  split
  · split
    · exact follow_acked s s.writers [] next
    · rfl
  · exact follow_acked s s.writers [] next

/-- Nothing is left in the queue that is looked at. -/
theorem takeFirst_queue :
    (s.takeFirst config next).queue =
      if config.groupCommitEnabled then [] else s.queue := by
  unfold takeFirst takePending
  split
  · split
    · rename_i empty
      rw [follow_queue]
      exact List.isEmpty_iff.mp empty
    · rfl
  · exact follow_queue s s.writers [] next

/-- A call that is done leaves the others as they are. -/
theorem waits_advance_none
    {writer : Writer} {now : UInt64}
    (split : s.writers = before ++ writer :: after)
    (ends : (writer.step config s.files now).2 = none)
    (waits : (s.advance config before writer after now).Waits ids) :
    s.Waits ids := by
  rw [advance_none ends] at waits
  rcases waits_follow waits with syncing | ⟨other, member, sync⟩ | last
  · exact Or.inl syncing
  · right
    refine ⟨other, ?_, sync⟩
    rw [split]
    rcases List.mem_append.mp member with old | new
    · exact List.mem_append_left _ old
    · exact List.mem_append_right _ (List.mem_cons_of_mem _ new)
  · exact Or.inr ⟨writer, by simp [split], last⟩

/-- A call that goes on does so for the same reason. -/
theorem waits_advance_some
    {writer writer' : Writer} {now : UInt64}
    (split : s.writers = before ++ writer :: after)
    (stays : (writer.step config s.files now).2 = some writer')
    (same : writer'.next = writer.next)
    (waits : (s.advance config before writer after now).Waits ids) :
    s.Waits ids := by
  rw [advance_some stays] at waits
  rcases waits with syncing | ⟨other, member, sync⟩
  · exact Or.inl syncing
  · right
    simp only [List.mem_append, List.mem_cons] at member
    rcases member with old | here | new
    · exact ⟨other, by simp [split, old], sync⟩
    · rw [here, same] at sync
      exact ⟨writer, by simp [split], sync⟩
    · exact ⟨other, by simp [split, new], sync⟩

theorem takePending_eq (enabled : config.groupCommitEnabled = true) :
    s.takePending next = s.takeFirst config next := by
  simp [takeFirst, enabled]

end

end CommitState

/-! ## What a step does to the barriers -/

namespace CommitStep

variable {config : CommitConfig} {base kept : Bytes} {s s' : CommitState}
variable {action : CommitAction}

/-- What is acknowledged stays so; a new acknowledgement is of an entry that
is queued or has been dealt with. -/
theorem acked_cases
    (step : CommitStep config s action s')
    (sound : LogFiles.Sound base kept s.files) :
    s'.acked = s.acked ∨
      (∃ entry, s' = s.enqueue config entry ∧
        config.groupCommitEnabled = true ∧
        config.groupCommitWaitDurable = false ∧
        s'.acked = s.acked ++ [s.issued.length]) ∨
      ∃ ids, s'.acked = s.acked ++ ids ∧
        ∀ id ∈ ids, s'.Written id ∨ s'.Dropped id := by
  cases step with
  | enqueue entry enabled =>
      cases wait : config.groupCommitWaitDurable with
      | true =>
          left
          simp [CommitState.enqueue, wait]
      | false =>
          right
          left
          exact ⟨entry, rfl, enabled, rfl, by simp [CommitState.enqueue, wait]⟩
  | flushPending enabled =>
      left
      rw [CommitState.takePending_eq enabled, CommitState.takeFirst_acked]
  | writeEntry => exact Or.inl rfl
  | batch =>
      left
      simp [CommitState.batchWriteOperations]
  | callFlush => exact Or.inl rfl
  | enterFlush =>
      left
      simp
  | advance before writer after now split =>
      rcases Writer.step_cases config sound writer now with
        goesOn | writes | drops
      · left
        rcases goesOn.stays with ⟨writer', stays, -⟩
        rw [CommitState.advance_some stays]
      · right
        right
        refine ⟨writer.records.map PendingEntry.id, ?_, ?_⟩
        · rw [CommitState.advance_none writes.ends, CommitState.follow_acked]
        · intro id member
          rcases List.mem_map.mp member with ⟨record, inBatch, same⟩
          left
          refine ⟨record, ?_, same⟩
          rw [CommitState.advance_files, writes.log]
          exact List.mem_append_right _ inBatch
      · right
        right
        refine ⟨writer.records.map PendingEntry.id, ?_, ?_⟩
        · rw [CommitState.advance_none drops.ends, CommitState.follow_acked]
        · intro id member
          rcases List.mem_map.mp member with ⟨record, inBatch, same⟩
          right
          refine ⟨record, ?_, same⟩
          rw [CommitState.advance_files, drops.dropped]
          exact List.mem_append_right _ inBatch
  | finishFlush => exact Or.inl rfl
  | backgroundSync => exact Or.inl rfl

theorem acked_subset
    (step : CommitStep config s action s')
    (sound : LogFiles.Sound base kept s.files) : s.acked ⊆ s'.acked := by
  rcases step.acked_cases sound with same | queued | dealt
  · rw [same]
    exact List.Subset.refl _
  · rcases queued with ⟨entry, -, -, -, acked⟩
    rw [acked]
    exact List.subset_append_left _ _
  · rcases dealt with ⟨ids, acked, -⟩
    rw [acked]
    exact List.subset_append_left _ _

/-- A call of `flush_wal` knows what is acknowledged at that moment. -/
theorem calls_cases
    (step : CommitStep config s action s') {ids : List Nat}
    (called : ids ∈ s'.calls) : ids ∈ s.calls ∨ ids = s.acked := by
  cases step with
  | enqueue => exact Or.inl called
  | flushPending enabled =>
      rw [CommitState.takePending_eq enabled,
        CommitState.takeFirst_calls] at called
      exact Or.inl called
  | writeEntry => exact Or.inl called
  | batch =>
      rw [CommitState.batchWriteOperations,
        CommitState.takeFirst_calls] at called
      exact Or.inl called
  | callFlush =>
      rcases List.mem_append.mp called with old | new
      · exact Or.inl old
      · exact Or.inr (List.mem_singleton.mp new)
  | enterFlush before others after split =>
      rw [CommitState.takeFirst_calls] at called
      left
      rw [split]
      rcases List.mem_append.mp called with old | new
      · exact List.mem_append_left _ old
      · exact List.mem_append_right _ (List.mem_cons_of_mem _ new)
  | advance before writer after now split =>
      left
      cases outcome : (writer.step config s.files now).2 with
      | none =>
          rw [CommitState.advance_none outcome, CommitState.follow_calls]
            at called
          exact called
      | some writer' =>
          rw [CommitState.advance_some outcome] at called
          exact called
  | finishFlush => exact Or.inl called
  | backgroundSync => exact Or.inl called

/-- A call of `flush_wal` waits once it has looked at the queue. -/
theorem waits_cases
    (step : CommitStep config s action s')
    (sound : LogFiles.Sound base kept s.files) {ids : List Nat}
    (waits : s'.Waits ids) :
    s.Waits ids ∨
      ids ∈ s.calls ∧
        s'.queue = if config.groupCommitEnabled then [] else s.queue := by
  cases step with
  | enqueue => exact Or.inl waits
  | flushPending enabled =>
      rw [CommitState.takePending_eq enabled] at waits
      rcases CommitState.waits_takeFirst waits with old | new
      · exact Or.inl old
      · cases new
  | writeEntry entry disabled =>
      left
      rcases waits with syncing | ⟨writer, member, sync⟩
      · exact Or.inl syncing
      · rcases List.mem_append.mp member with old | new
        · exact Or.inr ⟨writer, old, sync⟩
        · rw [List.mem_singleton.mp new] at sync
          cases sync
  | batch entries some =>
      rcases CommitState.waits_takeFirst waits with old | new
      · exact Or.inl old
      · cases new
  | callFlush => exact Or.inl waits
  | enterFlush before others after split =>
      rcases CommitState.waits_takeFirst waits with old | new
      · exact Or.inl old
      · right
        cases new
        constructor
        · rw [split]
          simp
        · exact CommitState.takeFirst_queue
  | advance before writer after now split =>
      left
      rcases Writer.step_cases config sound writer now with
        goesOn | writes | drops
      · rcases goesOn.stays with ⟨writer', stays, -, next⟩
        exact CommitState.waits_advance_some split stays next waits
      · exact CommitState.waits_advance_none split writes.ends waits
      · exact CommitState.waits_advance_none split drops.ends waits
  | finishFlush before others after split =>
      left
      rcases waits with syncing | writing
      · left
        rw [split]
        rcases List.mem_append.mp syncing with old | new
        · exact List.mem_append_left _ old
        · exact List.mem_append_right _ (List.mem_cons_of_mem _ new)
      · exact Or.inr writing
  | backgroundSync => exact Or.inl waits

/-- What is new in the queue has a new number. -/
theorem queue_cases
    (step : CommitStep config s action s') {record : PendingEntry}
    (queued : record ∈ s'.queue) :
    record ∈ s.queue ∨
      config.groupCommitEnabled = true ∧ record.id = s.issued.length := by
  have unqueued : ∀ (t : CommitState) (next : Next), t.queue = s.queue →
      record ∈ (t.takeFirst config next).queue → record ∈ s.queue := by
    intro t next same member
    rw [CommitState.takeFirst_queue] at member
    split at member
    · cases member
    · rw [← same]
      exact member
  cases step with
  | enqueue entry enabled =>
      rcases List.mem_append.mp queued with old | new
      · exact Or.inl old
      · rw [List.mem_singleton.mp new]
        exact Or.inr ⟨enabled, rfl⟩
  | flushPending enabled =>
      rw [CommitState.takePending_eq enabled] at queued
      exact Or.inl (unqueued s .finished rfl queued)
  | writeEntry => exact Or.inl queued
  | batch entries some =>
      let direct := directRecords s.issued.length entries
      exact Or.inl (unqueued { s with issued := s.issued ++ direct }
        (.batch s.issued.length entries) rfl queued)
  | callFlush => exact Or.inl queued
  | enterFlush before ids after split =>
      exact Or.inl (unqueued { s with calls := before ++ after } (.sync ids)
        rfl queued)
  | advance before writer after now split =>
      left
      cases outcome : (writer.step config s.files now).2 with
      | none =>
          rw [CommitState.advance_none outcome, CommitState.follow_queue]
            at queued
          exact queued
      | some writer' =>
          rw [CommitState.advance_some outcome] at queued
          exact queued
  | finishFlush => exact Or.inl queued
  | backgroundSync => exact Or.inl queued

end CommitStep

/-! ## Runs -/

/-- What a call of `flush_wal` knows is acknowledged, and once it has looked
at the queue, it is not in the queue. -/
structure CommitState.Barriers
    (config : CommitConfig) (s : CommitState) : Prop where
  acked : ∀ id ∈ s.acked, id < s.issued.length
  calls : ∀ ids ∈ s.calls, ids ⊆ s.acked
  waits : ∀ ids, s.Waits ids → ids ⊆ s.acked
  unqueued : ∀ ids, s.Waits ids → ∀ record ∈ s.queue, record.id ∉ ids
  off : config.groupCommitEnabled = false → s.queue = []

section

variable {config : CommitConfig} {base kept : Bytes} {s s' : CommitState}
variable {action : CommitAction}

theorem Numbered.lt
    {issued : List PendingEntry} (numbered : Numbered issued)
    {record : PendingEntry} (member : record ∈ issued) :
    record.id < issued.length := by
  have inIds := List.mem_map_of_mem (f := PendingEntry.id) member
  rw [numbered] at inIds
  exact List.mem_range.mp inIds

theorem CommitState.Invariant.dealt_lt
    (invariant : s.Invariant base kept) {id : Nat}
    (dealt : s.Written id ∨ s.Dropped id) : id < s.issued.length := by
  have inIssued : ∃ record ∈ s.issued, record.id = id := by
    rcases dealt with ⟨record, member, same⟩ | ⟨record, member, same⟩
    · exact ⟨record, invariant.log_subset record member, same⟩
    · refine ⟨record, invariant.accounted.subset ?_, same⟩
      simp [CommitState.pipeline, member]
  rcases inIssued with ⟨record, member, rfl⟩
  exact invariant.numbered.lt member

theorem CommitStep.keeps_barriers
    (step : CommitStep config s action s')
    (invariant : s.Invariant base kept) (barriers : s.Barriers config) :
    s'.Barriers config := by
  have sound := invariant.sound
  have after := step.keeps invariant
  have more := step.acked_subset sound
  have longer : s.issued.length ≤ s'.issued.length := by
    rcases step.issued with ⟨added, issued, -⟩
    rw [issued, List.length_append]
    exact Nat.le_add_right _ _
  constructor
  · intro id member
    rcases step.acked_cases sound with same | queued | dealt
    · rw [same] at member
      exact (barriers.acked id member).trans_le longer
    · rcases queued with ⟨entry, state, -, -, acked⟩
      rw [acked] at member
      rcases List.mem_append.mp member with old | new
      · exact (barriers.acked id old).trans_le longer
      · rw [List.mem_singleton.mp new, state]
        simp [CommitState.enqueue]
    · rcases dealt with ⟨ids, acked, settled⟩
      rw [acked] at member
      rcases List.mem_append.mp member with old | new
      · exact (barriers.acked id old).trans_le longer
      · exact after.dealt_lt (settled id new)
  · intro ids called
    rcases step.calls_cases called with old | new
    · exact List.Subset.trans (barriers.calls ids old) more
    · rw [new]
      exact more
  · intro ids waits
    rcases step.waits_cases sound waits with old | ⟨called, -⟩
    · exact List.Subset.trans (barriers.waits ids old) more
    · exact List.Subset.trans (barriers.calls ids called) more
  · intro ids waits record queued inIds
    rcases step.waits_cases sound waits with old | ⟨called, emptied⟩
    · rcases step.queue_cases queued with before | ⟨-, fresh⟩
      · exact barriers.unqueued ids old record before inIds
      · have below := barriers.acked _ (barriers.waits ids old inIds)
        omega
    · rw [emptied] at queued
      split at queued
      · cases queued
      · rename_i disabled
        rw [barriers.off (by simpa using disabled)] at queued
        cases queued
  · intro disabled
    apply List.eq_nil_iff_forall_not_mem.mpr
    intro record queued
    rcases step.queue_cases queued with before | ⟨enabled, -⟩
    · rw [barriers.off disabled] at before
      cases before
    · rw [disabled] at enabled
      cases enabled

theorem CommitState.Barriers.start (files : LogFiles) :
    (CommitState.opened files).Barriers config := by
  have idle : ∀ ids, ¬ (CommitState.opened files).Waits ids := by
    intro ids waits
    rcases waits with syncing | ⟨writer, member, -⟩
    · cases syncing
    · cases member
  constructor
  · intro id member
    cases member
  · intro ids member
    cases member
  · intro ids waits
    exact absurd waits (idle ids)
  · intro ids waits
    exact absurd waits (idle ids)
  · intro disabled
    rfl

theorem CommitState.Barriers.run
    (invariant : s.Invariant base kept) (barriers : s.Barriers config)
    (run : CommitRun config s s') : s'.Barriers config :=
  (run.invariant
    (fun s => s.Invariant base kept ∧ s.Barriers config)
    ⟨invariant, barriers⟩
    fun _ _ _ holds _ step =>
      ⟨step.keeps holds.1, step.keeps_barriers holds.1 holds.2⟩).2

/-! ## The places of an operation -/

/-- An operation that a call of `flush_wal` waits for is written, given up, or
in a batch that another call has taken. -/
theorem CommitState.Barriers.place
    (invariant : s.Invariant base kept) (barriers : s.Barriers config)
    {ids : List Nat} (waits : s.Waits ids) {id : Nat} (waited : id ∈ ids) :
    s.Written id ∨ s.Dropped id ∨ s.InFlight id := by
  have below := barriers.acked id (barriers.waits ids waits waited)
  have numbered : id ∈ s.issued.map PendingEntry.id := by
    rw [invariant.numbered]
    exact List.mem_range.mpr below
  rcases List.mem_map.mp numbered with ⟨record, issued, rfl⟩
  have found := invariant.accounted.symm.subset issued
  simp only [CommitState.pipeline, List.mem_append, List.mem_flatten,
    List.mem_flatMap] at found
  rcases found with ((written | dropped) | ⟨batch, ⟨writer, member, own⟩,
    inBatch⟩) | queued
  · exact Or.inl ⟨record, written, rfl⟩
  · exact Or.inr (Or.inl ⟨record, dropped, rfl⟩)
  · exact Or.inr (Or.inr ⟨writer, member, batch, own, record, inBatch, rfl⟩)
  · exact absurd waited (barriers.unqueued ids waits record queued)

/-- What is written is in no other place. -/
theorem CommitState.Invariant.written_only
    (invariant : s.Invariant base kept) {id : Nat} (written : s.Written id) :
    ¬ s.InFlight id ∧ ¬ s.Dropped id := by
  rcases written with ⟨record, inLog, rfl⟩
  have distinct := (invariant.accounted.map
    PendingEntry.id).nodup_iff.mpr invariant.numbered.nodup
  simp only [CommitState.pipeline, List.map_append, List.append_assoc]
    at distinct
  have apart := (List.nodup_append.mp distinct).2.2 record.id
    (List.mem_map_of_mem inLog)
  constructor
  · intro inFlight
    rcases inFlight with ⟨writer, member, batch, own, other, inBatch, same⟩
    apply apart other.id _ same.symm
    have taken : other ∈ (s.writers.flatMap Writer.batches).flatten :=
      List.mem_flatten.mpr
        ⟨batch, List.mem_flatMap.mpr ⟨writer, member, own⟩, inBatch⟩
    exact List.mem_append_right _ (List.mem_append_left _
      (List.mem_map_of_mem taken))
  · intro dropped
    rcases dropped with ⟨other, member, same⟩
    apply apart other.id _ same.symm
    exact List.mem_append_left _ (List.mem_map_of_mem member)

theorem LogFiles.flushOpen_durable
    (config : CommitConfig) {files : LogFiles}
    (sound : LogFiles.Sound base kept files) :
    (files.flushOpen config).durable =
      if config.syncMode = .fsync then files.log else files.durable := by
  rcases sound with ⟨older, last, layout⟩
  rcases layout.current with ⟨header, current⟩
  by_cases fsync : config.syncMode = .fsync
  · simp [flushOpen, syncAfterFlush, fsync, syncOpen, FileWal.flush, current]
  · simp [flushOpen, syncAfterFlush, fsync]

/-! ## Main results -/

/-- The condition under which a call of `flush_wal` that is about to sync
leaves the operations `ids` on durable storage. -/
def CommitState.FlushCovers (config : CommitConfig) (s : CommitState)
    (ids : List Nat) : Prop :=
  if config.syncMode = .fsync then
    ∀ id ∈ ids, ¬ s.InFlight id ∧ ¬ s.Dropped id
  else ∀ id ∈ ids, s.Durable id

theorem CommitStep.durable_iff
    {ids : List Nat} (step : CommitStep config s (.finishFlush ids) s')
    (invariant : s.Invariant base kept) (barriers : s.Barriers config) :
    (∀ id ∈ ids, s'.Durable id) ↔ s.FlushCovers config ids := by
  cases step with
  | finishFlush before ids after split =>
      have waits : s.Waits ids := Or.inl (by simp [split])
      have durable := LogFiles.flushOpen_durable config invariant.sound
      by_cases fsync : config.syncMode = .fsync
      · rw [if_pos fsync] at durable
        simp only [CommitState.FlushCovers, if_pos fsync, CommitState.Durable,
          durable]
        constructor
        · intro all id member
          exact invariant.written_only (all id member)
        · intro covers id member
          rcases barriers.place invariant waits member with
            written | dropped | inFlight
          · exact written
          · exact absurd dropped (covers id member).2
          · exact absurd inFlight (covers id member).1
      · rw [if_neg fsync] at durable
        simp only [CommitState.FlushCovers, if_neg fsync, CommitState.Durable,
          durable]

theorem CommitStep.written_mono
    (step : CommitStep config s action s')
    (sound : LogFiles.Sound base kept s.files) {id : Nat}
    (dealt : s.Written id ∨ s.Dropped id) : s'.Written id ∨ s'.Dropped id := by
  have same : ∀ files : LogFiles, files.log = s.files.log →
      files.dropped = s.files.dropped → s'.files = files →
      s'.Written id ∨ s'.Dropped id := by
    intro files log dropped state
    rw [CommitState.Written, CommitState.Dropped, state, log, dropped]
    exact dealt
  cases step with
  | enqueue => exact dealt
  | flushPending => exact same _ rfl rfl (by simp)
  | writeEntry => exact dealt
  | batch => exact same _ rfl rfl (by simp [CommitState.batchWriteOperations])
  | callFlush => exact dealt
  | enterFlush => exact same _ rfl rfl (by simp)
  | advance before writer after now split =>
      rcases Writer.step_cases config sound writer now with
        goesOn | writes | drops
      · exact same _ goesOn.log goesOn.dropped (by simp)
      · rw [CommitState.Written, CommitState.Dropped,
          CommitState.advance_files, writes.log, writes.dropped]
        rcases dealt with ⟨record, member, rfl⟩ | dropped
        · exact Or.inl ⟨record, List.mem_append_left _ member, rfl⟩
        · exact Or.inr dropped
      · rw [CommitState.Written, CommitState.Dropped,
          CommitState.advance_files, drops.log, drops.dropped]
        rcases dealt with written | ⟨record, member, rfl⟩
        · exact Or.inl written
        · exact Or.inr ⟨record, List.mem_append_left _ member, rfl⟩
  | finishFlush =>
      exact same _ (LogFiles.flushOpen_log config s.files)
        (LogFiles.flushOpen_dropped config s.files) rfl
  | backgroundSync =>
      exact same _ (LogFiles.syncOpen_log s.files)
        (LogFiles.syncOpen_dropped s.files) rfl

/-- Without group commit, or when a call waits for its batch, an entry is
acknowledged after it was dealt with. -/
theorem acked_dealt
    (invariant : s.Invariant base kept)
    (late : config.groupCommitEnabled = false ∨
      config.groupCommitWaitDurable = true)
    (dealt : ∀ id ∈ s.acked, s.Written id ∨ s.Dropped id)
    (run : CommitRun config s s') :
    ∀ id ∈ s'.acked, s'.Written id ∨ s'.Dropped id := by
  have both := run.invariant
    (fun s => s.Invariant base kept ∧
      ∀ id ∈ s.acked, s.Written id ∨ s.Dropped id)
    ⟨invariant, dealt⟩
    (fun s action s' holds _ step => by
      refine ⟨step.keeps holds.1, ?_⟩
      intro id member
      rcases step.acked_cases holds.1.sound with same | queued | dealt
      · rw [same] at member
        exact step.written_mono holds.1.sound (holds.2 id member)
      · rcases queued with ⟨entry, -, enabled, early, -⟩
        rcases late with disabled | waits
        · rw [enabled] at disabled
          cases disabled
        · rw [early] at waits
          cases waits
      · rcases dealt with ⟨ids, acked, settled⟩
        rw [acked] at member
        rcases List.mem_append.mp member with old | new
        · exact step.written_mono holds.1.sound (holds.2 id old)
        · exact settled id new)
  exact both.2

/-- With full syncing, and without acknowledgements of queued entries,
`flush_wal` is a barrier for all that was not given up. -/
theorem flush_wal_barrier_of_late_acks
    {ids : List Nat} (fsync : config.syncMode = .fsync)
    (late : config.groupCommitEnabled = false ∨
      config.groupCommitWaitDurable = true)
    {files : LogFiles} (sound : LogFiles.Sound base kept files)
    (log : files.log = []) (dropped : files.dropped = [])
    (run : CommitRun config (CommitState.opened files) s)
    (step : CommitStep config s (.finishFlush ids) s') :
    ∀ id ∈ ids, ¬ s.Dropped id → s'.Durable id := by
  have initially := CommitState.Invariant.start sound log dropped
  have invariant := initially.run run
  have barriers := (CommitState.Barriers.start files).run initially run
  have dealt := acked_dealt initially late
    (fun id member => absurd member List.not_mem_nil) run
  cases step with
  | finishFlush before ids after split =>
      intro id member kept
      have waits : s.Waits ids := Or.inl (by simp [split])
      have durable := LogFiles.flushOpen_durable config invariant.sound
      rw [if_pos fsync] at durable
      rw [CommitState.Durable, durable]
      rcases dealt id (barriers.waits ids waits member) with
        written | dropped
      · exact written
      · exact absurd dropped kept

/-- In every run, when `flush_wal` returns, what a power loss leaves of the
record bytes are those of the synced entries; and the operations that were
acknowledged before it was called are all among them if and only if, in the
mode that syncs, none of them is in a batch on its way or given up, and in the
other modes all of them were synced before. -/
theorem flush_wal_durable_iff
    {dir : List WalFile} {synced : Nat → Bytes} (config : CommitConfig)
    (onDisk : OnDisk .segment dir)
    (part : LogFiles.SyncedPart synced dir) (now : UInt64) :
    let start := CommitState.opened (LogFiles.opened config dir synced now)
    ∀ s s' ids, CommitRun config start s →
      CommitStep config s (.finishFlush ids) s' →
        payload (powerLoss s'.files.synced s'.files.wal.dir) =
          payload (powerLoss synced dir) ++
            dataToWrite s'.files.durable ∧
        ((∀ id ∈ ids, s'.Durable id) ↔ s.FlushCovers config ids) := by
  intro start s s' ids run step
  have sound := LogFiles.sound_opened config onDisk part now
  have initially := CommitState.Invariant.start sound rfl rfl
  have invariant := initially.run run
  have barriers := (CommitState.Barriers.start _).run initially run
  constructor
  · exact (step.sound invariant.sound).survives_eq
  · exact step.durable_iff invariant barriers

/-- The state in which `flush_wal` is about to sync after one operation. -/
def oneOperation (files : LogFiles) (entry : WALEntry) : CommitState where
  files := files
  issued := [⟨0, false, entry⟩]
  queue := []
  writers := []
  calls := []
  syncs := [[0]]
  acked := [0]

theorem one_operation_then_flush
    {start written : LogFiles} {entry : WALEntry}
    (disabled : config.groupCommitEnabled = false)
    (fits : start.writeEntry config ⟨0, false, entry⟩ = some written) :
    CommitRun config (CommitState.opened start)
      (oneOperation written entry) := by
  let attempt : Writer := .turn (.attempt 0 entry)
  have run : CommitRun config (CommitState.opened start)
      (CommitState.opened start) := Transitions.Reaches.start _
  have handed := run.next (.writeEntry entry) trivial
    (CommitStep.writeEntry _ entry disabled)
  have acknowledged := handed.next (.advance [] attempt) trivial
    (CommitStep.advance _ [] attempt [] 0 rfl)
  have state : ((CommitState.opened start).writeEntry entry).advance config
      [] attempt [] 0 =
        { oneOperation written entry with syncs := [] } := by
    have ends : (attempt.step config start 0) = (written, none) := by
      simp only [attempt, Writer.step, fits]
    have step : attempt.step config
        ((CommitState.opened start).writeEntry entry).files 0 =
          (written, none) := ends
    simp only [CommitState.advance, step]
    rfl
  rw [state] at acknowledged
  have called := acknowledged.next .callFlush trivial
    (CommitStep.callFlush _)
  have entered := called.next (.enterFlush [0]) trivial
    (CommitStep.enterFlush _ [] [0] [] rfl)
  simp only [CommitState.takeFirst, disabled] at entered
  exact entered

theorem finish_oneOperation
    (config : CommitConfig) (files : LogFiles) (entry : WALEntry) :
    CommitStep config (oneOperation files entry) (.finishFlush [0])
      { oneOperation files entry with
        files := files.flushOpen config, syncs := [] } :=
  CommitStep.finishFlush _ [] [0] [] rfl

end

/-- In the strict preset an acknowledged put survives. -/
theorem strict_put_is_durable :
    let config := WalDurability.strict.applyTo .defaults
    ∃ s s', CommitRun config (.opened (.empty config)) s ∧
      CommitStep config s (.finishFlush [0]) s' ∧ s.acked = [0] ∧
      s'.Durable 0 := by
  intro config
  have room : ((LogFiles.empty config).writeEntry config
      ⟨0, false, .put "k" (.bool true) 0⟩).isSome = true := rfl
  rcases Option.isSome_iff_exists.mp room with ⟨written, fits⟩
  have run := one_operation_then_flush rfl fits
  have step := finish_oneOperation config written
    (.put "k" (.bool true) 0)
  have exact_condition := (flush_wal_durable_iff config onDisk_nil
    (syncedPart_nil _) 0 _ _ [0] run step).2
  refine ⟨_, _, run, step, rfl, exact_condition.mpr ?_ 0 (by simp)⟩
  intro id member
  have inLog : (oneOperation written (.put "k" (.bool true) 0)).Written id := by
    rw [List.mem_singleton.mp member]
    refine ⟨⟨0, false, .put "k" (.bool true) 0⟩, ?_, rfl⟩
    have log := (LogFiles.writeEntry_log fits).1
    simp only [oneOperation, log]
    simp
  exact ((CommitState.Invariant.start (LogFiles.sound_empty config) rfl
    rfl).run run).written_only inLog

/-- In the buffered preset a put and `flush_wal` return, and a power loss
leaves nothing. -/
theorem buffered_put_is_lost :
    let config := WalDurability.buffered.applyTo .defaults
    ∃ s s', CommitRun config (.opened (.empty config)) s ∧
      CommitStep config s (.finishFlush [0]) s' ∧ s.acked = [0] ∧
      s.writers = [] ∧
      payload (powerLoss s'.files.synced s'.files.wal.dir) = [] ∧
      ¬ s'.Durable 0 := by
  intro config
  have room : ((LogFiles.empty config).writeEntry config
      ⟨0, false, .put "k" (.bool true) 0⟩).isSome = true := rfl
  rcases Option.isSome_iff_exists.mp room with ⟨written, fits⟩
  have run := one_operation_then_flush rfl fits
  have step := finish_oneOperation config written
    (.put "k" (.bool true) 0)
  have sound : LogFiles.Sound [] [] written :=
    (LogFiles.sound_empty config).writeEntry fits
  have unsynced : ((LogFiles.empty config).writeEntry config
      ⟨0, false, .put "k" (.bool true) 0⟩).map LogFiles.durable =
        some [] := rfl
  rw [fits, Option.map_some, Option.some.injEq] at unsynced
  have durable := LogFiles.flushOpen_durable config sound
  rw [if_neg (by decide), unsynced] at durable
  refine ⟨_, _, run, step, rfl, rfl, ?_, ?_⟩
  · have survives := (sound.flushOpen config).survives_eq
    rw [durable] at survives
    exact survives
  · intro found
    rcases found with ⟨record, member, -⟩
    simp only [durable] at member
    cases member

end F4kvsLsm
