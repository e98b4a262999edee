import F4kvsLsm.Wal.GroupCommitFiles

/-!
# The steps of group commit

A step of a call either leaves the records alone or deals with its batch, and
then the batch is at the end of the log or, for a single entry that fits no
segment, given up.  So a run of the log manager is a run of a queue that is
drained in batches.
-/

namespace F4kvsLsm

open ByteCodec FileWal

@[simp]
theorem directRecords_length (first : Nat) (entries : List WALEntry) :
    (directRecords first entries).length = entries.length := by
  simp [directRecords]

theorem directRecords_ids (first : Nat) (entries : List WALEntry) :
    (directRecords first entries).map PendingEntry.id =
      List.range' first (directRecords first entries).length := by
  apply List.ext_getElem
  · simp
  · intro index inside inside'
    simp [directRecords]

namespace LogFiles

@[simp]
theorem syncOpen_log (files : LogFiles) :
    files.syncOpen.log = files.log := by
  unfold syncOpen
  split
  · rfl
  · rfl

@[simp]
theorem syncOpen_dropped (files : LogFiles) :
    files.syncOpen.dropped = files.dropped := by
  unfold syncOpen
  split
  · rfl
  · rfl

@[simp]
theorem syncAfterFlush_log (config : CommitConfig) (files : LogFiles) :
    (files.syncAfterFlush config).log = files.log := by
  unfold syncAfterFlush
  split
  · exact syncOpen_log files
  · rfl

@[simp]
theorem syncAfterFlush_dropped (config : CommitConfig) (files : LogFiles) :
    (files.syncAfterFlush config).dropped = files.dropped := by
  unfold syncAfterFlush
  split
  · exact syncOpen_dropped files
  · rfl

@[simp]
theorem flushOpen_log (config : CommitConfig) (files : LogFiles) :
    (files.flushOpen config).log = files.log := by
  simp [flushOpen]

@[simp]
theorem flushOpen_dropped (config : CommitConfig) (files : LogFiles) :
    (files.flushOpen config).dropped = files.dropped := by
  simp [flushOpen]

@[simp]
theorem install_log
    (config : CommitConfig) (files : LogFiles) (now : UInt64) :
    (files.install config now).log = files.log := by
  simp [install]

@[simp]
theorem install_dropped
    (config : CommitConfig) (files : LogFiles) (now : UInt64) :
    (files.install config now).dropped = files.dropped := by
  simp [install]

section

variable {config : CommitConfig} {base kept : Bytes} {files : LogFiles}

theorem append_log
    (config : CommitConfig) (sound : Sound base kept files) (list : List PendingEntry) :
    (files.append config list).log = files.log ++ list ∧
      (files.append config list).dropped = files.dropped := by
  rcases sound with ⟨older, last, layout⟩
  rcases layout.current with ⟨header, current⟩
  simp [append, current]

theorem writeEntry_log
    {record : PendingEntry} {files' : LogFiles}
    (written : files.writeEntry config record = some files') :
    files'.log = files.log ++ [record] ∧ files'.dropped = files.dropped := by
  unfold writeEntry at written
  split at written
  · split at written
    · rw [← Option.some.inj written]
      simp
    · cases written
  · cases written

end

end LogFiles

namespace Writer

variable {base kept : Bytes} {files : LogFiles}

theorem step_sound
    (config : CommitConfig) (sound : LogFiles.Sound base kept files)
    (writer : Writer) (now : UInt64) :
    LogFiles.Sound base kept (writer.step config files now).1 := by
  cases writer with
  | turn stage =>
      cases stage with
      | full list next =>
          simp only [step]
          split
          · exact sound
          · exact sound
      | overflow list next =>
          simp only [step]
          split
          · exact sound
          · exact sound
      | append list next => exact sound.append config list
      | attempt id entry =>
          simp only [step]
          split
          · rename_i written
            exact sound.writeEntry written
          · exact sound
      | retry id entry =>
          simp only [step]
          split
          · rename_i written
            exact sound.writeEntry written
          · rcases sound with ⟨older, last, layout⟩
            exact ⟨older, last, layout.dir, layout.ascending,
              layout.current, layout.counter, layout.headed, layout.logged,
              layout.closed, layout.survives, layout.durable⟩
  | rotate stage => exact sound.install config now
  | raise stage => exact sound.raiseCounter

/-- A step that leaves the records alone. -/
structure GoesOn (files : LogFiles) (writer : Writer)
    (result : LogFiles × Option Writer) : Prop where
  log : result.1.log = files.log
  dropped : result.1.dropped = files.dropped
  stays : ∃ writer', result.2 = some writer' ∧
    writer'.records = writer.records ∧ writer'.next = writer.next

structure Writes (files : LogFiles) (writer : Writer)
    (result : LogFiles × Option Writer) : Prop where
  log : result.1.log = files.log ++ writer.records
  dropped : result.1.dropped = files.dropped
  ends : result.2 = none

/-- A step that gives the batch up. -/
structure Drops (files : LogFiles) (writer : Writer)
    (result : LogFiles × Option Writer) : Prop where
  log : result.1.log = files.log
  dropped : result.1.dropped = files.dropped ++ writer.records
  ends : result.2 = none
  single : ∃ id entry, writer = .turn (.retry id entry)

theorem step_cases
    (config : CommitConfig) (sound : LogFiles.Sound base kept files)
    (writer : Writer) (now : UInt64) :
    GoesOn files writer (writer.step config files now) ∨
      Writes files writer (writer.step config files now) ∨
      Drops files writer (writer.step config files now) := by
  cases writer with
  | turn stage =>
      cases stage with
      | full list next =>
          left
          simp only [step]
          split
          · exact ⟨rfl, rfl, _, rfl, rfl, rfl⟩
          · exact ⟨rfl, rfl, _, rfl, rfl, rfl⟩
      | overflow list next =>
          left
          simp only [step]
          split
          · exact ⟨rfl, rfl, _, rfl, rfl, rfl⟩
          · exact ⟨rfl, rfl, _, rfl, rfl, rfl⟩
      | append list next =>
          right
          left
          have written := LogFiles.append_log config sound list
          exact ⟨written.1, written.2, rfl⟩
      | attempt id entry =>
          simp only [step]
          split
          · rename_i found
            right
            left
            have written := LogFiles.writeEntry_log found
            exact ⟨written.1, written.2, rfl⟩
          · left
            exact ⟨rfl, rfl, _, rfl, rfl, rfl⟩
      | retry id entry =>
          simp only [step]
          split
          · rename_i found
            right
            left
            have written := LogFiles.writeEntry_log found
            exact ⟨written.1, written.2, rfl⟩
          · right
            right
            exact ⟨rfl, rfl, rfl, id, entry, rfl⟩
  | rotate stage =>
      left
      exact ⟨LogFiles.install_log config files now,
        LogFiles.install_dropped config files now, _, rfl, rfl, rfl⟩
  | raise stage =>
      left
      exact ⟨rfl, rfl, _, rfl, rfl, rfl⟩

end Writer

namespace CommitState

variable {config : CommitConfig}

@[simp]
theorem follow_files (s : CommitState) (before after : List Writer)
    (next : Next) : (s.follow before after next).files = s.files := by
  cases next with
  | finished => rfl
  | batch => rfl
  | sync => rfl

@[simp]
theorem takePending_files (s : CommitState) (next : Next) :
    (s.takePending next).files = s.files := by
  unfold takePending
  split
  · exact follow_files s s.writers [] next
  · rfl

@[simp]
theorem takeFirst_files (s : CommitState) (next : Next) :
    (s.takeFirst config next).files = s.files := by
  unfold takeFirst
  split
  · exact takePending_files s next
  · exact follow_files s s.writers [] next

@[simp]
theorem follow_issued (s : CommitState) (before after : List Writer)
    (next : Next) : (s.follow before after next).issued = s.issued := by
  cases next with
  | finished => rfl
  | batch => rfl
  | sync => rfl

@[simp]
theorem takePending_issued (s : CommitState) (next : Next) :
    (s.takePending next).issued = s.issued := by
  unfold takePending
  split
  · exact follow_issued s s.writers [] next
  · rfl

@[simp]
theorem takeFirst_issued (s : CommitState) (next : Next) :
    (s.takeFirst config next).issued = s.issued := by
  unfold takeFirst
  split
  · exact takePending_issued s next
  · exact follow_issued s s.writers [] next

theorem advance_some
    {s : CommitState} {before after : List Writer} {writer writer' : Writer}
    {now : UInt64}
    (stays : (writer.step config s.files now).2 = some writer') :
    s.advance config before writer after now =
      { s with
        files := (writer.step config s.files now).1
        writers := before ++ writer' :: after } := by
  unfold advance
  split
  · rename_i found
    rw [found] at stays
    rw [found, ← Option.some.inj stays]
  · rename_i found
    rw [found] at stays
    cases stays

theorem advance_none
    {s : CommitState} {before after : List Writer} {writer : Writer}
    {now : UInt64} (ends : (writer.step config s.files now).2 = none) :
    s.advance config before writer after now =
      follow
        { s with
          files := (writer.step config s.files now).1
          acked := s.acked ++ writer.records.map PendingEntry.id }
        before after writer.next := by
  unfold advance
  split
  · rename_i found
    rw [found] at ends
    cases ends
  · rename_i found
    rw [found]

@[simp]
theorem advance_files (s : CommitState) (before : List Writer)
    (writer : Writer) (after : List Writer) (now : UInt64) :
    (s.advance config before writer after now).files =
      (writer.step config s.files now).1 := by
  cases outcome : (writer.step config s.files now).2 with
  | none => rw [advance_none outcome, follow_files]
  | some writer' => rw [advance_some outcome]

@[simp]
theorem advance_issued (s : CommitState) (before : List Writer)
    (writer : Writer) (after : List Writer) (now : UInt64) :
    (s.advance config before writer after now).issued = s.issued := by
  cases outcome : (writer.step config s.files now).2 with
  | none => rw [advance_none outcome, follow_issued]
  | some writer' => rw [advance_some outcome]

end CommitState

theorem CommitStep.sound
    {config : CommitConfig} {base kept : Bytes} {s s' : CommitState}
    {action : CommitAction} (step : CommitStep config s action s')
    (sound : LogFiles.Sound base kept s.files) :
    LogFiles.Sound base kept s'.files := by
  cases step with
  | enqueue => exact sound
  | flushPending => simpa using sound
  | writeEntry => exact sound
  | batch => simpa [CommitState.batchWriteOperations] using sound
  | callFlush => exact sound
  | enterFlush => simpa using sound
  | advance before writer after now split =>
      rw [CommitState.advance_files]
      exact Writer.step_sound config sound writer now
  | finishFlush => exact sound.flushOpen config
  | backgroundSync => exact sound.syncOpen

/-- New entries get the next numbers. -/
theorem CommitStep.issued
    {config : CommitConfig} {s s' : CommitState} {action : CommitAction}
    (step : CommitStep config s action s') :
    ∃ added, s'.issued = s.issued ++ added ∧
      added.map PendingEntry.id =
        List.range' s.issued.length added.length := by
  cases step with
  | enqueue entry enabled => exact ⟨[⟨_, true, entry⟩], rfl, rfl⟩
  | flushPending => exact ⟨[], by simp, rfl⟩
  | writeEntry entry disabled => exact ⟨[⟨_, false, entry⟩], rfl, rfl⟩
  | batch entries some =>
      refine ⟨directRecords s.issued.length entries, ?_, ?_⟩
      · simp [CommitState.batchWriteOperations]
      · exact directRecords_ids s.issued.length entries
  | callFlush => exact ⟨[], by simp, rfl⟩
  | enterFlush => exact ⟨[], by simp, rfl⟩
  | advance => exact ⟨[], by simp, rfl⟩
  | finishFlush => exact ⟨[], by simp, rfl⟩
  | backgroundSync => exact ⟨[], by simp, rfl⟩

/-- The entries are numbered in the order in which they are handed over. -/
def Numbered (issued : List PendingEntry) : Prop :=
  issued.map PendingEntry.id = List.range issued.length

theorem CommitStep.numbered
    {config : CommitConfig} {s s' : CommitState} {action : CommitAction}
    (step : CommitStep config s action s') (numbered : Numbered s.issued) :
    Numbered s'.issued := by
  rcases step.issued with ⟨added, issued, ids⟩
  unfold Numbered at *
  have joined := @List.range'_append_1 0 s.issued.length added.length
  rw [Nat.zero_add] at joined
  rw [issued, List.map_append, numbered, ids, List.length_append,
    List.range_eq_range', List.range_eq_range', joined]

theorem Numbered.nodup
    {issued : List PendingEntry} (numbered : Numbered issued) :
    (issued.map PendingEntry.id).Nodup := by
  rw [numbered]
  exact List.nodup_range

end F4kvsLsm
