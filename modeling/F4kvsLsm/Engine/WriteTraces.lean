import Mathlib.Algebra.Order.BigOperators.Group.List
import F4kvsLsm.Engine.WriteErrors

/-!
# Writes that return an error and leave no trace

Behind the log an error finds the writes in the memtable and in the counter,
and an error of the flush finds the memtable behind those that were parked
before it.  So such an error leaves no trace only where the writes do not show
anyway.  In front of the first record that the log reads again it always does.
-/

namespace F4kvsLsm

open KeyedLog

section

variable {config : WriteConfig} {run : WriteRun} {e : CountedEngine}
variable {op : WriteOp}

/-! ## What an error behind the writes leaves -/

theorem WriteOp.applyCall_get (tree : LsmTree) (levelCount : Nat)
    (now : UInt64) (op : WriteOp) :
    (OpenEngine.applyCall config.toEngineConfig tree
        (op.call now)).get levelCount =
      applyWrites (tree.get levelCount) op.writes := by
  cases op with
  | put key value => exact LsmTree.get_put levelCount _ tree key value
  | putWithTtl key value => exact LsmTree.get_put levelCount _ tree key value
  | putCfWithTtl key value columnFamily =>
      exact LsmTree.get_put levelCount _ tree _ value
  | delete key => exact LsmTree.get_delete levelCount _ tree key
  | batchPut items =>
      change (items.foldl (fun tree item =>
        tree.put config.tree.jsonLen item.1 item.2) tree).get levelCount =
          items.foldl _ _
      induction items generalizing tree with
      | nil => rfl
      | cons item items inductionHypothesis =>
          rw [List.foldl_cons, List.foldl_cons, inductionHypothesis,
            LsmTree.get_put]

/-- A memtable that is parked is asked behind those parked before it. -/
theorem LsmTree.get_parked (levelCount : Nat) (tree : LsmTree)
    (sequence : Nat) (key : String) :
    LsmTree.get levelCount ⟨.new, tree.immutables ++ [tree.active],
        tree.levels, sequence⟩ key =
      match memtableValue tree.immutables key with
      | some value => value.visible
      | none => tree.get levelCount key := by
  rw [LsmTree.get_eq, LsmTree.get_eq, memtableValue_cons, memtableValue_cons,
    Memtable.new_get, Option.none_or, memtableValue, memtableValue,
    List.findSome?_append, List.findSome?_singleton]
  cases parked : tree.immutables.findSome? (·.data[key]?) with
  | some value => rfl
  | none => rw [Option.none_or, Option.or_none]

theorem OpenEngine.checkMemtableFlush_failed
    {config : EngineConfig} {e flushed : OpenEngine} {run : FlushRun}
    (failed : e.checkMemtableFlush config run = (flushed, false)) :
    ∃ sequence data, flushed = ⟨e.wal, ⟨.new,
      e.tree.immutables ++ [e.tree.active], e.tree.levels, sequence⟩,
        data⟩ := by
  rw [checkMemtableFlush] at failed
  split at failed
  · case isTrue full =>
      by_cases nonempty : e.tree.active.entryCount > 0
      · simp only [flushMemtable, LsmTree.flushMemtableInternal,
          if_pos nonempty] at failed
        cases outcome : run.outcome with
        | done =>
            rw [outcome] at failed
            exact absurd (congrArg Prod.snd failed) (by simp)
        | failedWriting | failedOpening =>
            rw [outcome] at failed
            exact ⟨_, _, (congrArg Prod.fst failed).symm⟩
      · rw [flushMemtable_of_empty nonempty] at failed
        exact absurd (congrArg Prod.snd failed) (by simp)
  · case isFalse room => exact absurd (congrArg Prod.snd failed) (by simp)

namespace WriteOp

/-- What a key reads as after an error behind the writes. -/
def readAfter (config : WriteConfig) (e : CountedEngine) (op : WriteOp)
    (key : String) : Option Value :=
  match if op.flushes then memtableValue e.tree.immutables key else none with
  | some value => value.visible
  | none => applyWrites (e.get config) op.writes key

theorem countDelta_withWal (wal : WalHandle) :
    op.countDelta config (e.withWal wal) = op.countDelta config e := by
  cases op <;> rfl

/-- What is left by an error of the flush or of the `ttl` operations. -/
theorem finish_failed
    {wal : WalHandle} {error : F4KvsError} {after : CountedEngine}
    (failed : op.finish config run
      (op.applied config run.now (e.withWal wal)) = .error error after) :
    after.engine.wal = wal ∧
      after.count = e.count + op.countDelta config e ∧
      ∀ key, after.get config key = op.readAfter config e key := by
  have read : (OpenEngine.applyCall config.toEngineConfig e.tree
      (op.call run.now)).get config.tree.levelCount =
        applyWrites (e.get config) op.writes :=
    applyCall_get e.tree config.tree.levelCount run.now op
  have moved : op.countDelta config (e.withWal wal) = _ :=
    countDelta_withWal wal
  have kept : (OpenEngine.applyCall config.toEngineConfig e.tree
      (op.call run.now)).immutables = e.tree.immutables := by
    rw [OpenEngine.applyCall_eq]
  rw [finish] at failed
  split at failed
  · case isTrue flushes =>
      rw [CountedEngine.checkMemtableFlush] at failed
      split at failed
      · exact absurd failed (by simp)
      · case h_2 flushed parking =>
          rcases OpenEngine.checkMemtableFlush_failed parking with
            ⟨sequence, data, parked⟩
          have same := (EStateM.Result.error.inj failed).2
          rw [← same, parked]
          refine ⟨rfl, ?_, ?_⟩
          · exact congrArg (e.count + ·) moved
          · intro key
            rw [readAfter, if_pos flushes]
            have reads := LsmTree.get_parked config.tree.levelCount
              (OpenEngine.applyCall config.toEngineConfig e.tree
                (op.call run.now)) sequence key
            refine reads.trans ?_
            rw [kept, read]
  · case isFalse noFlush =>
      have same := (EStateM.Result.error.inj failed).2
      rw [← same]
      refine ⟨rfl, ?_, ?_⟩
      · exact congrArg (e.count + ·) moved
      · intro key
        rw [readAfter, if_neg noFlush]
        exact congrFun read key

theorem putUncounted_iff (effect : String × PutEffect) :
    PutUncounted config e effect ↔
      applyPutKeyCount e.bulkImport config.tree.levelCount e.tree.levels
        effect.1 effect.2 = 0 := by
  rcases effect with ⟨key, effect⟩
  rw [PutUncounted]
  cases effect with
  | updatedLive => simp [applyPutKeyCount]
  | resurrected => simp [applyPutKeyCount]
  | inserted =>
      cases e.bulkImport with
      | true => simp [applyPutKeyCount]
      | false =>
          cases found : getFromSstables config.tree.levelCount
            e.tree.levels key <;> simp [applyPutKeyCount, found]

theorem applyPutKeyCount_nonneg (effect : String × PutEffect) :
    0 ≤ applyPutKeyCount e.bulkImport config.tree.levelCount e.tree.levels
      effect.1 effect.2 := by
  rcases effect with ⟨key, effect⟩
  cases effect with
  | updatedLive => exact le_rfl
  | resurrected => exact Int.one_nonneg
  | inserted =>
      rw [applyPutKeyCount]
      split
      · exact Int.one_nonneg
      · split
        · exact le_rfl
        · exact Int.one_nonneg

theorem batchApplyPutKeyCounts_eq_sum (effects : List (String × PutEffect)) :
    batchApplyPutKeyCounts e.bulkImport config.tree.levelCount e.tree.levels
        effects =
      (effects.map fun effect => applyPutKeyCount e.bulkImport
        config.tree.levelCount e.tree.levels effect.1 effect.2).sum := by
  cases bulk : e.bulkImport with
  | false => rfl
  | true =>
      rw [batchApplyPutKeyCounts, if_pos rfl]
      congr 1
      apply List.map_congr_left
      intro effect member
      cases effect.2 <;> rfl

theorem batchUncounted_iff (effects : List (String × PutEffect)) :
    (∀ effect ∈ effects, PutUncounted config e effect) ↔
      batchApplyPutKeyCounts e.bulkImport config.tree.levelCount
        e.tree.levels effects = 0 := by
  rw [batchApplyPutKeyCounts_eq_sum]
  induction effects with
  | nil => simp
  | cons effect effects inductionHypothesis =>
      rw [List.forall_mem_cons, List.map_cons, List.sum_cons,
        inductionHypothesis, putUncounted_iff]
      have first := @applyPutKeyCount_nonneg config e effect
      have rest : 0 ≤ (effects.map fun effect => applyPutKeyCount
          e.bulkImport config.tree.levelCount e.tree.levels effect.1
            effect.2).sum := by
        apply List.sum_nonneg
        intro moved member
        rcases List.mem_map.mp member with ⟨other, -, rfl⟩
        exact applyPutKeyCount_nonneg other
      omega

theorem uncounted_iff :
    op.Uncounted config e ↔ op.countDelta config e = 0 := by
  have single : ∀ key value,
      (∀ effect ∈ (e.tree.active.batchPut config.tree.jsonLen
        [(key, value)]).2, PutUncounted config e effect) ↔
      applyPutKeyCount e.bulkImport config.tree.levelCount e.tree.levels key
        (e.tree.active.putEffect key) = 0 := by
    intro key value
    rw [← @putUncounted_iff config e (key, e.tree.active.putEffect key)]
    simp [Memtable.batchPut]
  cases op with
  | put key value => exact single key value
  | putWithTtl key value => exact single key value
  | putCfWithTtl key value columnFamily => exact single _ value
  | batchPut items => exact batchUncounted_iff _
  | delete key =>
      rw [countDelta, LsmTree.existsKey_eq, Uncounted, CountedEngine.get]
      cases e.tree.get config.tree.levelCount key <;> simp

/-- The reads stay when the first parked memtable that holds a key, and
without one the last write, says what is read. -/
theorem readAfter_iff :
    (∀ key, op.readAfter config e key = e.get config key) ↔
      (op.flushes = true → ∀ key value,
        memtableValue e.tree.immutables key = some value →
          value.visible = e.get config key) ∧
      ∀ key value, lastWrite op.writes key = some value →
        (op.flushes = true → memtableValue e.tree.immutables key = none) →
          value.visible = e.get config key := by
  constructor
  · intro same
    constructor
    · intro flushes key value parked
      have read := same key
      rw [readAfter, if_pos flushes, parked] at read
      exact read
    · intro key value last unparked
      have read := same key
      have notParked : (if op.flushes then
          memtableValue e.tree.immutables key else none) = none := by
        split
        · case isTrue flushes => exact unparked flushes
        · rfl
      rw [readAfter, notParked, applyWrites_eq] at read
      simp only [last] at read
      exact read
  · intro conditions key
    rw [readAfter]
    split
    · case h_1 value parked =>
        split at parked
        · case isTrue flushes => exact conditions.1 flushes key value parked
        · exact absurd parked (by simp)
    · case h_2 unparked =>
        rw [applyWrites_eq]
        cases last : lastWrite op.writes key with
        | none => rfl
        | some value =>
            apply conditions.2 key value last
            intro flushes
            rw [if_pos flushes] at unparked
            exact unparked

theorem invisible_iff :
    op.Invisible config e ↔
      (∀ key, op.readAfter config e key = e.get config key) ∧
        op.countDelta config e = 0 := by
  rw [readAfter_iff, ← uncounted_iff]
  constructor
  · intro invisible
    exact ⟨⟨invisible.parked, invisible.written⟩, invisible.uncounted⟩
  · intro conditions
    exact ⟨conditions.1.1, conditions.1.2, conditions.2⟩

theorem entries_eq_nil_iff (now : UInt64) :
    (op.call now).entries = [] ↔ op.writes = [] := by
  cases op with
  | put _ _ | delete _ | putWithTtl _ _ | putCfWithTtl _ _ _ =>
      simp [call, writes, WalCall.entries]
  | batchPut items => exact List.map_eq_nil_iff

end WriteOp

/-! ## The log -/

theorem WalHandle.call_of_nil
    {wal : WalHandle} {call : WalCall} (nothing : call.entries = []) :
    wal.call config.wal call = .ok wal := by
  cases call with
  | writeOperation key value now => exact absurd nothing (by simp [WalCall.entries])
  | writeDelete key now => exact absurd nothing (by simp [WalCall.entries])
  | batchWriteOperations items now =>
      rw [WalCall.entries, List.map_eq_nil_iff] at nothing
      subst nothing
      cases wal <;> rfl

/-- The log shows a call that it has taken as soon as there is an entry. -/
theorem WalHandle.Grows.nil_of_read
    {wal wal' : WalHandle} {entries : List WALEntry}
    (ready : wal.Ready config.wal)
    (grows : WalHandle.Grows config.wal wal wal' entries)
    (same : wal'.disk.readEntriesForRecovery config.wal =
      wal.disk.readEntriesForRecovery config.wal) : entries = [] := by
  rw [WalDisk.readEntriesForRecovery_onDisk grows.ready.onDisk,
    WalDisk.readEntriesForRecovery_onDisk ready.onDisk, Except.ok.injEq,
    grows.recovered] at same
  have lengths := congrArg List.length same
  rw [FileWal.sortByTimestamp_length, FileWal.sortByTimestamp_length,
    List.length_append] at lengths
  apply List.eq_nil_of_length_eq_zero
  omega

theorem WriteRun.faultOf_of_nil
    {call : WalCall} (nothing : call.entries = []) :
    run.faultOf call = none := by
  simp [faultOf, nothing]

/-! ## Errors without a trace -/

namespace CountedEngine

theorem SameObserved.refl : e.SameObserved config e :=
  ⟨fun _ => rfl, rfl, rfl⟩

theorem sameObserved_withWal_iff {wal : WalHandle} :
    e.SameObserved config (e.withWal wal) ↔
      wal.disk.readEntriesForRecovery config.wal =
        e.engine.wal.disk.readEntriesForRecovery config.wal := by
  constructor
  · intro same
    exact same.replayed
  · intro same
    exact ⟨fun _ => rfl, rfl, same⟩

end CountedEngine

namespace WriteOp

/-- After an error behind the writes only the log and what they show count. -/
theorem late_sameObserved_iff
    {wal : WalHandle} {error : F4KvsError} {after : CountedEngine}
    (failed : op.finish config run
      (op.applied config run.now (e.withWal wal)) = .error error after) :
    e.SameObserved config after ↔
      wal.disk.readEntriesForRecovery config.wal =
          e.engine.wal.disk.readEntriesForRecovery config.wal ∧
        op.Invisible config e := by
  rcases finish_failed failed with ⟨sameWal, count, reads⟩
  rw [invisible_iff]
  constructor
  · intro same
    refine ⟨?_, ?_, ?_⟩
    · rw [← sameWal]
      exact same.replayed
    · intro key
      rw [← reads key]
      exact same.get key
    · have unmoved := same.count
      omega
  · intro conditions
    rcases conditions with ⟨replayed, unread, unmoved⟩
    constructor
    case get =>
      intro key
      rw [reads key, unread key]
    case count => omega
    case replayed =>
      rw [CountedEngine.replayed, sameWal]
      exact replayed

/-- An append that fails leaves what its fault leaves. -/
theorem fault_sameObserved
    {fault : LogFault} {text : String}
    (enabled : config.walEnabled = true)
    (faulty : run.faultOf (op.call run.now) = some (fault, text))
    (accepted : ¬ op.Refused config e)
    (traceless : op.Traceless config run e) :
    e.SameObserved config (e.withWal
      (e.engine.wal.afterFault config.wal (op.call run.now).entries
        fault)) := by
  rw [CountedEngine.sameObserved_withWal_iff]
  cases traceless with
  | refused refused => exact absurd refused accepted
  | unlogged _ sound _ =>
      rw [faulty] at sound
      exact absurd sound (by simp)
  | unopened _ unopened =>
      rw [faulty, Option.some.injEq, Prod.mk.injEq] at unopened
      rw [unopened.1]
      cases e.engine.wal <;> rfl
  | unread _ faulty' loggable unread =>
      rw [faulty, Option.some.injEq, Prod.mk.injEq] at faulty'
      rw [faulty'.1]
      exact (WalHandle.afterFault_read_iff loggable.ready
        loggable.admissible _).mpr unread
  | invisible nothing _ =>
      have empty := (entries_eq_nil_iff run.now).mpr (nothing enabled)
      rw [WriteRun.faultOf_of_nil empty] at faulty
      exact absurd faulty (by simp)

theorem traceless_of_fault
    {fault : LogFault} {text : String}
    (enabled : config.walEnabled = true)
    (faulty : run.faultOf (op.call run.now) = some (fault, text))
    (loggable : op.Loggable config run e)
    (same : e.SameObserved config (e.withWal
      (e.engine.wal.afterFault config.wal (op.call run.now).entries
        fault))) :
    op.Traceless config run e := by
  rw [CountedEngine.sameObserved_withWal_iff] at same
  apply Traceless.unread enabled faulty loggable
  exact (WalHandle.afterFault_read_iff loggable.ready loggable.admissible
    _).mp same

/-- A call that the log has taken is not read before only if it is empty. -/
theorem late_sameObserved
    {wal : WalHandle} {error : F4KvsError} {after : CountedEngine}
    (enabled : config.walEnabled = true)
    (sound : run.faultOf (op.call run.now) = none)
    (called : e.engine.wal.call config.wal (op.call run.now) = .ok wal)
    (failed : op.finish config run
      (op.applied config run.now (e.withWal wal)) = .error error after)
    (accepted : ¬ op.Refused config e)
    (traceless : op.Traceless config run e) :
    e.SameObserved config after := by
  apply (late_sameObserved_iff failed).mpr
  cases traceless with
  | refused refused => exact absurd refused accepted
  | unlogged _ _ refused =>
      rw [called] at refused
      exact absurd refused (by simp)
  | unopened _ faulty | unread _ faulty _ _ =>
      rw [sound] at faulty
      exact absurd faulty (by simp)
  | invisible nothing invisible =>
      have empty := (entries_eq_nil_iff run.now).mpr (nothing enabled)
      rw [WalHandle.call_of_nil empty, Except.ok.injEq] at called
      rw [← called]
      exact ⟨rfl, invisible⟩

theorem traceless_of_late
    {wal : WalHandle} {error : F4KvsError} {after : CountedEngine}
    (called : e.engine.wal.call config.wal (op.call run.now) = .ok wal)
    (failed : op.finish config run
      (op.applied config run.now (e.withWal wal)) = .error error after)
    (loggable : op.Loggable config run e)
    (same : e.SameObserved config after) :
    op.Traceless config run e := by
  rcases (late_sameObserved_iff failed).mp same with ⟨replayed, invisible⟩
  rcases WalHandle.call_grows loggable.ready loggable.admissible with
    ⟨wal', called', grows⟩
  rw [called, Except.ok.injEq] at called'
  rw [called'] at replayed
  apply Traceless.invisible _ invisible
  intro enabled
  apply (entries_eq_nil_iff run.now).mp
  exact grows.nil_of_read loggable.ready replayed

/-- Without a log only what the writes show counts. -/
theorem unlogged_sameObserved_iff
    {error : F4KvsError} {after : CountedEngine}
    (disabled : config.walEnabled = false)
    (failed : op.finish config run (op.applied config run.now e) =
      .error error after)
    (accepted : ¬ op.Refused config e) :
    e.SameObserved config after ↔ op.Traceless config run e := by
  have late := @late_sameObserved_iff config run e op e.engine.wal error after failed
  rw [late]
  constructor
  · intro same
    apply Traceless.invisible _ same.2
    intro enabled
    rw [disabled] at enabled
    exact absurd enabled (by simp)
  · intro traceless
    cases traceless with
    | refused refused => exact absurd refused accepted
    | unlogged enabled _ _ | unopened enabled _ | unread enabled _ _ _ =>
        rw [disabled] at enabled
        exact absurd enabled (by simp)
    | invisible _ invisible => exact ⟨rfl, invisible⟩

end WriteOp

/-- A write that returns an error has changed no read, no count and no replay
of the log if the error leaves no trace, and, with a log that is open and can
represent the write, only then. -/
theorem failed_write_unobserved_iff
    {error : F4KvsError} {after : CountedEngine}
    (failed : op.run config run e = .error error after) :
    (op.Traceless config run e → e.SameObserved config after) ∧
      ((config.walEnabled = true → op.Loggable config run e) →
        e.SameObserved config after → op.Traceless config run e) := by
  by_cases refused : op.Refused config e
  · rcases WriteOp.run_of_refused refused with ⟨refusal, returned⟩
    rw [returned] at failed
    have same := (EStateM.Result.error.inj failed).2
    rw [← same]
    exact ⟨fun _ => .refl, fun _ _ => .refused refused⟩
  · have logging := CountedEngine.writeLog_logging config run e
      (op.call run.now)
    rw [WriteOp.run_eq refused] at failed
    generalize CountedEngine.writeLog config run (op.call run.now) e = result
      at failed logging
    cases logging with
    | off disabled =>
        have unlogged :=
          WriteOp.unlogged_sameObserved_iff disabled failed refused
        exact ⟨unlogged.mpr, fun _ => unlogged.mp⟩
    | failed enabled faulty =>
        have same := (EStateM.Result.error.inj failed).2
        rw [← same]
        exact ⟨WriteOp.fault_sameObserved enabled faulty refused,
          fun loggable => WriteOp.traceless_of_fault enabled faulty
            (loggable enabled)⟩
    | refused enabled sound called =>
        have same := (EStateM.Result.error.inj failed).2
        rw [← same]
        exact ⟨fun _ => .refl, fun _ _ => .unlogged enabled sound called⟩
    | written enabled sound called =>
        exact ⟨WriteOp.late_sameObserved enabled sound called failed refused,
          fun loggable => WriteOp.traceless_of_late called failed
            (loggable enabled)⟩

end

/-! ## An engine on an empty directory -/

def smallWrites : WriteConfig :=
  { smallEngine with maxSize := 1, walEnabled := true }

def openedCounted : CountedEngine := ⟨openedEngine, 0, [], false⟩

/-- A write into which the file system does not come. -/
def quietRun : WriteRun := ⟨2, none, wholeFlush, .io "no error"⟩

/-- Three bytes of the record are written. -/
def tornRun : WriteRun :=
  ⟨2, some (.file (.appending 3), "No space left on device"), wholeFlush,
    .io "no error"⟩

def fullRun : WriteRun :=
  ⟨2, none, failedFlush, .io "No space left on device"⟩

/-- A put whose record is cut is gone. -/
theorem torn_put_is_unobserved :
    ∃ after, (WriteOp.put "k" (.bool true)).run smallWrites tornRun
        openedCounted =
      .error (.io "LSM I/O error: No space left on device") after ∧
      openedCounted.SameObserved smallWrites after := by
  have returned : (WriteOp.put "k" (.bool true)).run smallWrites tornRun
      openedCounted =
    .error (.io "LSM I/O error: No space left on device") _ := rfl
  have opened : FileWal.Opens .segment smallWrites.wal [] _ :=
    FileWal.initializeWal_opens ⟨List.Pairwise.nil, by simp⟩ 1
  have loggable : (WriteOp.put "k" (.bool true)).Loggable smallWrites tornRun
      openedCounted := by
    constructor
    · exact opened.ready
    · intro entry member
      rw [List.mem_singleton.mp member]
      exact ⟨by decide, by decide, rfl⟩
  refine ⟨_, returned, (failed_write_unobserved_iff returned).1 ?_⟩
  exact .unread rfl rfl loggable rfl

/-- A put with a lifetime is refused and kept, and so is a put whose flush
fails. -/
theorem refused_puts_are_observed :
    (∃ after, (WriteOp.putWithTtl "k" (.bool true)).run smallWrites quietRun
        openedCounted = .error ttlNotEnabled after ∧
      after.get smallWrites "k" = some (.bool true) ∧
      after.count = 1 ∧
      after.replayed smallWrites = .ok [.put "k" (.bool true) 2]) ∧
    (∃ after, (WriteOp.put "k" (.bool true)).run smallWrites fullRun
        openedCounted =
          .error (.io "LSM I/O error: No space left on device") after ∧
      after.get smallWrites "k" = some (.bool true)) ∧
    openedCounted.get smallWrites "k" = none ∧
    openedCounted.count = 0 ∧
    openedCounted.replayed smallWrites = .ok [] := by
  refine ⟨⟨_, rfl, rfl, rfl, ?_⟩, ⟨_, rfl, rfl⟩, rfl, rfl, rfl⟩
  rfl

end F4kvsLsm
